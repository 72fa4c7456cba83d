import Rollup.Encode.Writes

/-!
# Any calls of a context

The functions of a context called one after the other, in any order (`Call`), those that
return an error included. What they have written is sealed into the bytes of which these are
the bits, the highest bit of a byte first (`encodes_callAll`); a number that does not fit is
still written, except a negative one.
-/

namespace Rollup

namespace BitEncodeContext

/-- The functions that write to a context. A `PrimInt` of `w` bits is read as an unsigned number,
    which it is when it is not negative. -/
inductive Call where
  | encodePrimint {w : ℕ} (n : BitVec w) (bits : ℕ)
  | encodeBig (n : ℤ) (bits : ℕ)
  | encodeBytes (bts : List UInt8)
  | padding (alignAt : ℕ)

/-- Making a call; writing bytes and padding return no error. -/
def call (c : BitEncodeContext) : Call → Except Panic (Except AnyhowError Unit × BitEncodeContext)
  | .encodePrimint n bits => c.encodePrimint n bits
  | .encodeBig n bits => c.encodeBig n bits
  | .encodeBytes bts => do
    let c ← c.encodeBytes bts
    pure (.ok (), c)
  | .padding alignAt => do
    let c ← c.padding alignAt
    pure (.ok (), c)

/-- The calls one after the other, with what they return. -/
def callAll (c : BitEncodeContext) :
    List Call → Except Panic (List (Except AnyhowError Unit) × BitEncodeContext)
  | [] => pure ([], c)
  | call :: calls => do
    let (result, c) ← c.call call
    let (results, c) ← c.callAll calls
    pure (result :: results, c)

/-! ## What is written -/

namespace Call

/-- There are multiples of the alignment. -/
def Aligns : Call → Prop
  | .padding alignAt => alignAt ≠ 0
  | _ => True

instance (call : Call) : Decidable call.Aligns :=
  match call with
  | .padding _ => inferInstanceAs (Decidable (_ ≠ _))
  | .encodePrimint _ _ | .encodeBig _ _ | .encodeBytes _ => .isTrue trivial

/-- The bits that a call adds to `length` bits. -/
def bits (length : ℕ) : Call → List Bool
  | .encodePrimint n bits => Bits.ofNat bits n.toNat
  | .encodeBig n bits => if n < 0 then [] else Bits.ofNat bits n.toNat
  | .encodeBytes bts => bts.flatMap fun ch => Bits.ofNat 8 ch.toNat
  | .padding alignAt => List.replicate (missingBits length alignAt) false

/-- What a call returns: an error if the number does not fit. -/
def result : Call → Except AnyhowError Unit
  | .encodePrimint n bits => if n.toNat < 2 ^ bits then .ok () else .error tooLong
  | .encodeBig n bits =>
    if n < 0 then .error ⟨s!"have {n}, can only encode positive integer"⟩
    else if n < 2 ^ bits then .ok () else .error tooLong
  | .encodeBytes _ | .padding _ => .ok ()

end Call

/-- The bits of the calls, those of each call after those of the calls before. -/
def written (calls : List Call) : List Bool :=
  calls.foldl (fun l call => l ++ call.bits l.length) []

/-- What calls on a new context lead to. -/
structure Encodes (calls : List Call) (results : List (Except AnyhowError Unit))
    (c : BitEncodeContext) : Prop where
  results_eq : results = calls.map Call.result
  /-- The bytes are packed with the bits written, and zeros up to a whole byte. -/
  sealBuf_eq_iff : ∀ bytes, c.sealBuf = bytes ↔ bytes.flatMap byteBits =
    written calls ++ List.replicate (missingBits (written calls).length 8) false
  /-- Adding bytes at once is adding zeros one at a time. -/
  padBits_eq : ∀ padding fuel, padding ≤ fuel →
    c.padBits fuel padding = Prod.snd <$> c.applyBits 0 padding

theorem fitResult_eq (n bits : ℕ) :
    fitResult n bits = if n < 2 ^ bits then .ok () else .error tooLong := by
  split
  · next h => exact fitResult_eq_ok_iff.2 h
  · next h => rw [fitResult, if_pos fun h0 => h ((Nat.div_eq_zero_iff_lt (Nat.two_pow_pos bits)).1 h0)]

theorem encodeBytes_ofBits (l : List Bool) (bts : List UInt8) : (ofBits l).encodeBytes bts =
    .ok (ofBits (l ++ bts.flatMap fun ch => Bits.ofNat 8 ch.toNat)) := by
  induction bts generalizing l with
  | nil => rw [List.flatMap_nil, List.append_nil]; rfl
  | cons ch bts ih =>
    have hfit : fitResult ch.toBitVec.toNat 8 = .ok () := fitResult_eq_ok_iff.2 ch.toNat_lt
    rw [encodeBytes, List.foldlM_cons, encodePrimint_ofBits, hfit]
    change (ofBits (l ++ Bits.ofNat 8 ch.toNat)).encodeBytes bts = _
    rw [ih, List.append_assoc, List.flatMap_cons]

/-- What a call does to the bits of the context. -/
theorem call_ofBits (l : List Bool) {call : Call} (h : call.Aligns) :
    (ofBits l).call call = .ok (call.result, ofBits (l ++ call.bits l.length)) := by
  cases call with
  | encodePrimint n bits =>
    rw [BitEncodeContext.call, encodePrimint_ofBits, fitResult_eq, Call.result, Call.bits]
  | encodeBig n bits =>
    rw [BitEncodeContext.call, Call.result, Call.bits]
    rcases lt_or_ge n 0 with hn | hn
    · rw [encodeBig, if_pos hn, if_pos hn, if_pos hn, List.append_nil]
      rfl
    · obtain ⟨m, rfl⟩ := Int.eq_ofNat_of_zero_le hn
      rw [if_neg (not_lt.2 hn), if_neg (not_lt.2 hn), encodeBig_ofBits, fitResult_eq,
        Int.toNat_natCast]
      norm_cast
  | encodeBytes bts =>
    rw [BitEncodeContext.call, encodeBytes_ofBits]
    rfl
  | padding alignAt =>
    rw [BitEncodeContext.call, padding_ofBits l h]
    rfl

theorem callAll_ofBits (l : List Bool) {calls : List Call} (h : ∀ call ∈ calls, call.Aligns) :
    (ofBits l).callAll calls = .ok (calls.map Call.result,
      ofBits (calls.foldl (fun l call => l ++ call.bits l.length) l)) := by
  induction calls generalizing l with
  | nil => rfl
  | cons call calls ih =>
    rw [List.forall_mem_cons] at h
    rw [callAll, call_ofBits l h.1, Exec.ok_bind]
    dsimp only
    rw [ih _ h.2]
    rfl

/-- Padding to a multiple of zero stops the program. -/
theorem callAll_error {calls : List Call} (l : List Bool) (h : ∃ call ∈ calls, ¬call.Aligns) :
    (ofBits l).callAll calls = .error .divisionByZero := by
  induction calls generalizing l with
  | nil =>
    obtain ⟨_, hmem, -⟩ := h
    cases hmem
  | cons call calls ih =>
    by_cases hcall : call.Aligns
    · rw [List.exists_mem_cons_iff, or_iff_right (not_not.2 hcall)] at h
      rw [callAll, call_ofBits l hcall, Exec.ok_bind]
      dsimp only
      rw [ih _ h]
      rfl
    · cases call with
      | padding alignAt =>
        obtain rfl : alignAt = 0 := not_not.1 hcall
        rfl
      | encodePrimint _ _ | encodeBig _ _ | encodeBytes _ => exact absurd trivial hcall

theorem encodes_ofBits (calls : List Call) :
    Encodes calls (calls.map Call.result) (ofBits (written calls)) where
  results_eq := rfl
  sealBuf_eq_iff bytes := by
    rw [← flatMap_byteBits_sealBuf_ofBits, eq_comm (a := bytes.flatMap byteBits)]
    exact (Bits.flatMap_injective byteBits_injective length_byteBits (by decide)).eq_iff.symm
  padBits_eq padding fuel hle := by
    rw [padBits_ofBits _ hle, applyBits_ofBits, Bits.ofNat_zero]
    rfl

/-- Calls on a new context return an error exactly if their number does not fit or is negative,
    and what they have written is sealed into bytes, the highest bit of a byte first; no bit is
    added to a byte that overflows, and paddings are the shortest. Only a padding to a multiple of
    zero stops the program. -/
theorem encodes_callAll (calls : List Call) :
    ((∀ call ∈ calls, call.Aligns) → ∃ results c, new.callAll calls = .ok (results, c) ∧
      Encodes calls results c) ∧
    ((∃ call ∈ calls, ¬call.Aligns) → new.callAll calls = .error .divisionByZero) ∧
    ∀ alignAt ≠ 0, ∀ length, IsLeast {k | alignAt ∣ length + k} (missingBits length alignAt) :=
  ⟨fun h => ⟨_, _, callAll_ofBits [] h, encodes_ofBits calls⟩, callAll_error [],
    fun _ h length => isLeast_missingBits h length⟩

/-- A number that does not fit, bytes, a padding across a byte, and a negative number. -/
def mixedCalls : List Call :=
  [.encodePrimint (5 : BitVec 32) 3, .encodeBig 300 8, .encodeBytes [1, 128], .padding 40,
    .encodeBig (-1) 4, .encodePrimint (3 : BitVec 8) 2]

theorem encodes_mixedCalls : (∃ results c, new.callAll mixedCalls = .ok (results, c) ∧
      Encodes mixedCalls results c ∧ c.sealBuf = [166, 144, 0, 32, 0, 192]) ∧
    new.callAll (.padding 0 :: mixedCalls) = .error .divisionByZero ∧
    IsLeast {k | 40 ∣ 27 + k} 13 := by
  obtain ⟨results, c, hcalls, hc⟩ := (encodes_callAll mixedCalls).1 (by decide)
  exact ⟨⟨results, c, hcalls, hc, (hc.sealBuf_eq_iff _).2 (by decide)⟩,
    (encodes_callAll (.padding 0 :: mixedCalls)).2.1 ⟨.padding 0, List.mem_cons_self, by decide⟩,
    (encodes_callAll []).2.2 40 (by decide) 27⟩

/-- A negative number is an error although its magnitude has few enough bits, and none of them is
    written; and there is no multiple of zero to pad to. -/
theorem not_encodes_minusOne : Nat.size (-1 : ℤ).natAbs ≤ 8 ∧
    (∃ e, new.callAll [.encodeBig (-1) 8] = .ok ([.error e], new)) ∧ new.sealBuf = [] ∧
    new.callAll [.padding 0] = .error .divisionByZero :=
  ⟨by decide, ⟨_, rfl⟩, rfl, rfl⟩

end BitEncodeContext

end Rollup
