import Rollup.Encode.Bits

/-!
# What is written

Every function of the encoder appends bits to the context, or fails
(`Encoding.Writes`). A transaction that is encoded takes a *record* of `dataBits`:
three bits of heading, the fields of its scheme, then zeros
(`encodeRawtxToPubdata_leads_iff`).
-/

namespace Rollup

section Writing

variable {x y : Encoding Unit} {e e' : TxDataEncoder}

/-- The encoder with its context holding some bits. -/
def TxDataEncoder.holding (e : TxDataEncoder) (l : List Bool) : TxDataEncoder :=
  { e with ctx := .ofBits l }

namespace Encoding

/-- The computation neither fails nor panics, and leaves this encoder. -/
def Leads (x : Encoding Unit) (e e' : TxDataEncoder) : Prop := x.run.run e = .ok (.ok (), e')

/-- Wherever it is run, the computation succeeds if `p` holds, and then appends these bits. -/
def Writes (x : Encoding Unit) (e : TxDataEncoder) (p : Prop) (bits : List Bool) : Prop :=
  ∀ l e', x.Leads (e.holding l) e' ↔ p ∧ e' = e.holding (l ++ bits)

/-- The second part goes on with the encoder that the first one leaves. -/
theorem leads_bind {α : Type} {x : Encoding α} {f : α → Encoding Unit} :
    (x >>= f).Leads e e' ↔ ∃ a e₁, x.run.run e = .ok (.ok a, e₁) ∧ (f a).Leads e₁ e' := by
  have hrun : (x >>= f).run.run e = x.run.run e >>= fun r =>
      match r.1 with
      | .ok a => (f a).run.run r.2
      | .error err => pure (.error err, r.2) := by
    rw [ExceptT.run_bind, StateT.run_bind]
    refine congrArg _ (funext fun r => ?_)
    rcases r with ⟨a | a, e₁⟩ <;> rfl
  rw [Leads, hrun, Exec.bind_eq_ok_iff]
  constructor
  · rintro ⟨⟨r, e₁⟩, hx, hf⟩
    cases r with
    | ok a => exact ⟨a, e₁, hx, hf⟩
    | error err => cases hf
  · rintro ⟨a, e₁, hx, hf⟩
    exact ⟨_, hx, hf⟩

/-- One computation after the other. -/
theorem Writes.bind {p q : Prop} {bits bits' : List Bool} (hx : x.Writes e p bits)
    (hy : y.Writes e q bits') : (x >>= fun _ => y).Writes e (p ∧ q) (bits ++ bits') := by
  intro l e'
  rw [leads_bind, ← List.append_assoc]
  constructor
  · rintro ⟨_, e₁, h₁, h₂⟩
    obtain ⟨hp, rfl⟩ := (hx l e₁).1 h₁
    obtain ⟨hq, rfl⟩ := (hy _ e').1 h₂
    exact ⟨⟨hp, hq⟩, rfl⟩
  · rintro ⟨⟨hp, hq⟩, rfl⟩
    exact ⟨(), _, (hx l _).2 ⟨hp, rfl⟩, (hy _ _).2 ⟨hq, rfl⟩⟩

/-- Reading the encoder leaves it as it is. -/
theorem leads_get {f : TxDataEncoder → Encoding Unit} :
    (MonadState.get >>= f : Encoding Unit).Leads e e' ↔ (f e).Leads e e' := by
  rw [leads_bind]
  constructor
  · rintro ⟨_, _, hget, hf⟩
    obtain ⟨hr, rfl⟩ := Prod.mk.inj (Except.ok.inj hget)
    exact Except.ok.inj hr ▸ hf
  · exact fun hf => ⟨_, _, rfl, hf⟩

/-- Reading the parameters of the encoder. -/
theorem Writes.get {f : TxDataEncoder → Encoding Unit} {p : Prop} {bits : List Bool}
    (h : ∀ l, f (e.holding l) = y) (hy : y.Writes e p bits) :
    (MonadState.get >>= f : Encoding Unit).Writes e p bits := by
  intro l e'
  rw [leads_get, h]
  exact hy l e'

/-- Only the context of the encoder changes. -/
theorem run_write (f : BitEncodeContext → Except Panic (Except AnyhowError Unit × BitEncodeContext))
    (e : TxDataEncoder) :
    (write f).run.run e = f e.ctx >>= fun r => pure (r.1, { e with ctx := r.2 }) := rfl

/-- The bits that were written before an error stay written. -/
theorem run_ok (x : Encoding Unit) (e : TxDataEncoder) :
    (Encoding.ok x).run.run e = x.run.run e >>= fun r => .ok (.ok (), r.2) := by
  simp only [Encoding.ok, tryCatch, tryCatchThe, MonadExceptOf.tryCatch, ExceptT.tryCatch,
    ExceptT.run_mk, StateT.run_bind]
  refine congrArg _ (funext fun r => ?_)
  rcases r with ⟨_ | _, _⟩ <;> rfl

/-- A function of the context that writes its bits whether it fails or not. -/
theorem writes_write
    {f : BitEncodeContext → Except Panic (Except AnyhowError Unit × BitEncodeContext)}
    {r : Except AnyhowError Unit} {bits : List Bool}
    (h : ∀ l, f (.ofBits l) = .ok (r, .ofBits (l ++ bits))) :
    (write f).Writes e (r = .ok ()) bits ∧ (Encoding.ok (write f)).Writes e True bits := by
  have hwrite : ∀ l, (write f).run.run (e.holding l) = .ok (r, e.holding (l ++ bits)) := by
    intro l
    rw [run_write, TxDataEncoder.holding, h]
    rfl
  refine ⟨fun l e' => ?_, fun l e' => ?_⟩
  · rw [Leads, hwrite, Except.ok.injEq, Prod.mk.injEq]
    exact and_congr_right fun _ => eq_comm
  · rw [Leads, run_ok, hwrite, Exec.ok_bind, Except.ok.injEq, Prod.mk.injEq]
    exact ⟨fun h => ⟨trivial, h.2.symm⟩, fun h => ⟨rfl, h.2.symm⟩⟩

end Encoding

/-! ## Numbers -/

open Encoding

/-- Whether there is nothing left of the number once its bits are written. -/
def fitResult (n bits : ℕ) : Except AnyhowError Unit :=
  if n / 2 ^ bits ≠ 0 then .error BitEncodeContext.tooLong else .ok ()

/-- The error is returned exactly if the number is too long. -/
theorem fitResult_eq_ok_iff {n bits : ℕ} : fitResult n bits = .ok () ↔ n < 2 ^ bits := by
  have hpow : 0 < 2 ^ bits := Nat.two_pow_pos bits
  rw [fitResult]
  split
  · next h =>
    refine ⟨fun hr => ?_, fun hlt => absurd (Nat.div_eq_of_lt hlt) h⟩
    cases hr
  · next h =>
    refine ⟨fun _ => ?_, fun _ => rfl⟩
    exact (Nat.div_eq_zero_iff_lt hpow).1 (not_not.1 h)

/-- The lowest bits are written, whether the number fits or not. -/
theorem encodePrimint_ofBits (l : List Bool) {w : ℕ} (n : BitVec w) (bits : ℕ) :
    (BitEncodeContext.ofBits l).encodePrimint n bits =
      .ok (fitResult n.toNat bits, .ofBits (l ++ Bits.ofNat bits n.toNat)) := by
  rw [BitEncodeContext.encodePrimint, BitEncodeContext.applyBits_ofBits]
  rfl

/-- For a number that is not negative, both ways of writing it agree. -/
theorem encodeBig_ofBits (l : List Bool) (n bits : ℕ) :
    (BitEncodeContext.ofBits l).encodeBig n bits =
      .ok (fitResult n bits, .ofBits (l ++ Bits.ofNat bits n)) := by
  rw [BitEncodeContext.encodeBig, if_neg (not_lt.2 (Int.natCast_nonneg n)), Int.toNat_natCast,
    BitEncodeContext.applyBits_ofBits]
  rfl

/-- Writing a number succeeds if it fits. -/
theorem writes_primint {w : ℕ} (n : BitVec w) (bits : ℕ) :
    (write fun ctx => ctx.encodePrimint n bits).Writes e (n.toNat < 2 ^ bits)
      (Bits.ofNat bits n.toNat) := by
  have h := (writes_write (e := e) (f := fun ctx => ctx.encodePrimint n bits)
    fun l => encodePrimint_ofBits l n bits).1
  rwa [fitResult_eq_ok_iff] at h

/-! ## Fields -/

variable [FluidexCommon]

/-- A field element, and the number of bits it is written on. What does not fit is
    an error, or dropped. -/
structure FrField where
  fr : Fr
  width : ℕ
  truncated : Bool

namespace FrField

/-- The number that is written: on less than 64 bits, the one `to_i64` returns. -/
def number? (f : FrField) : Option ℕ :=
  if f.width < 64 then (FluidexCommon.toI64 f.fr).map fun n => (BitVec.ofInt 64 n).toNat
  else some f.fr.val

/-- The bits of a number that could not be read are those of zero. -/
def field (f : FrField) : Bits.Field := ⟨f.number?.getD 0, f.width⟩

/-- The number can be read, and has at most the bits of its field, unless it is truncated. -/
def Fits (f : FrField) : Prop := f.number?.isSome ∧ (f.truncated = true ∨ f.field.Fits)

/-- How the field is written. -/
def write (f : FrField) : Encoding Unit :=
  if f.truncated then Encoding.ok (TxDataEncoder.encodeFr f.fr f.width)
  else TxDataEncoder.encodeFr f.fr f.width

end FrField

/-- The bits are written even if the number does not fit. -/
theorem FrField.run_encodeFr (f : FrField) (l : List Bool) :
    (TxDataEncoder.encodeFr f.fr f.width).run.run (e.holding l) =
      unwrap f.number? >>= fun n =>
        .ok (fitResult n f.width, e.holding (l ++ Bits.ofNat f.width n)) := by
  rw [TxDataEncoder.encodeFr, number?]
  split
  · cases FluidexCommon.toI64 f.fr with
    | none => rfl
    | some n =>
      change ((BitEncodeContext.ofBits l).encodePrimint (BitVec.ofInt 64 n) f.width >>=
        fun r => pure (r.1, { e.holding l with ctx := r.2 })) = _
      rw [encodePrimint_ofBits]
      rfl
  · change ((BitEncodeContext.ofBits l).encodeBig (f.fr.val : ℤ) f.width >>=
      fun r => pure (r.1, { e.holding l with ctx := r.2 })) = _
    rw [encodeBig_ofBits]
    rfl

/-- A field is written as its lowest bits. -/
theorem FrField.writes_write (f : FrField) : f.write.Writes e f.Fits f.field.bits := by
  intro l e'
  have hrun := f.run_encodeFr (e := e) l
  unfold FrField.write Fits field Bits.Field.bits Bits.Field.Fits
  cases hn : f.number? with
  | none =>
    rw [hn] at hrun
    change _ = Except.error Panic.unwrap at hrun
    split
    · rw [Leads, run_ok, hrun]
      exact ⟨fun h => (by cases h), fun h => absurd h.1.1 Bool.false_ne_true⟩
    · rw [Leads, hrun]
      exact ⟨fun h => (by cases h), fun h => absurd h.1.1 Bool.false_ne_true⟩
  | some n =>
    rw [hn, unwrap, Exec.unwrap_some, Exec.ok_bind] at hrun
    split
    · next ht =>
      rw [Leads, run_ok, hrun, Exec.ok_bind, Except.ok.injEq, Prod.mk.injEq]
      exact ⟨fun h => ⟨⟨rfl, .inl ht⟩, h.2.symm⟩, fun h => ⟨rfl, h.2.symm⟩⟩
    · next ht =>
      rw [Leads, hrun, Except.ok.injEq, Prod.mk.injEq, fitResult_eq_ok_iff]
      exact ⟨fun h => ⟨⟨rfl, .inr h.1⟩, h.2.symm⟩,
        fun h => ⟨h.1.2.resolve_left ht, h.2.symm⟩⟩

/-- The computation writes these fields. -/
abbrev Encoding.WritesFields (x : Encoding Unit) (e : TxDataEncoder) (fields : List FrField) : Prop :=
  x.Writes e (∀ f ∈ fields, f.Fits) (Bits.encode (fields.map FrField.field))

/-- Writing the fields one after the other. -/
def writeFields : List FrField → Encoding Unit
  | [] => pure ()
  | [f] => f.write
  | f :: g :: fields => do
    f.write
    writeFields (g :: fields)

/-- A list of fields is written one after the other, if all of them fit. -/
theorem writesFields_writeFields (fields : List FrField) :
    (writeFields fields).WritesFields e fields := by
  induction fields with
  | nil =>
    intro l e'
    rw [List.map_nil, Bits.encode, List.flatMap_nil, List.append_nil]
    constructor
    · intro h
      exact ⟨fun _ hf => (by cases hf), (congrArg Prod.snd (Except.ok.inj h)).symm⟩
    · rintro ⟨-, rfl⟩
      rfl
  | cons f fields ih =>
    intro l e'
    rw [List.forall_mem_cons, List.map_cons, Bits.encode, List.flatMap_cons]
    cases fields with
    | nil =>
      rw [List.map_nil, List.flatMap_nil, List.append_nil, writeFields, f.writes_write l e']
      exact and_congr_left fun _ => (and_iff_left fun _ hf => by cases hf).symm
    | cons g fields => exact f.writes_write.bind ih l e'

/-! ## Schemes -/

/-- The fields that `forCommonTx` writes. -/
def commonFields (e : TxDataEncoder) (payload : Payload) : List FrField :=
  [⟨payload .accountId1, e.accountBits, false⟩, ⟨payload .accountId2, e.accountBits, false⟩,
    ⟨payload .tokenId1, e.tokenBits, false⟩, ⟨payload .amount, 128, false⟩]

/-- The fields that `forSpotTradeTx` writes; only the order ids may be truncated. -/
def spotTradeFields (e : TxDataEncoder) (payload : Payload) : List FrField :=
  [⟨payload .accountId1, e.accountBits, false⟩, ⟨payload .accountId2, e.accountBits, false⟩,
    ⟨payload .newOrder1TokenSell, e.tokenBits, false⟩,
    ⟨payload .newOrder2TokenSell, e.tokenBits, false⟩,
    ⟨payload .newOrder1AmountSell, 40, false⟩, ⟨payload .newOrder1AmountBuy, 40, false⟩,
    ⟨payload .order1Pos, e.orderBits, false⟩, ⟨payload .newOrder1Id, 32, true⟩,
    ⟨payload .newOrder2AmountSell, 40, false⟩, ⟨payload .newOrder2AmountBuy, 40, false⟩,
    ⟨payload .order2Pos, e.orderBits, false⟩, ⟨payload .newOrder2Id, 32, true⟩]

/-- The fields that `forL2KeyTx` writes. -/
def l2KeyFields (e : TxDataEncoder) (payload : Payload) : List FrField :=
  [⟨payload .accountId1, e.accountBits, false⟩, ⟨payload .sign2, 1, false⟩,
    ⟨payload .ay2, 254, false⟩]

open Encoding

theorem writesFields_forCommonTx (payload : Payload) :
    (forCommonTx payload).WritesFields e (commonFields e payload) :=
  Writes.get (fun _ => rfl) (writesFields_writeFields (commonFields e payload))

theorem writesFields_forSpotTradeTx (payload : Payload) :
    (forSpotTradeTx payload).WritesFields e (spotTradeFields e payload) :=
  Writes.get (fun _ => rfl) (writesFields_writeFields (spotTradeFields e payload))

theorem writesFields_forL2KeyTx (payload : Payload) :
    (forL2KeyTx payload).WritesFields e (l2KeyFields e payload) :=
  Writes.get (fun _ => rfl) (writesFields_writeFields (l2KeyFields e payload))

/-! ## Records -/

/-- Which of the orders of a trade are filled. -/
def filledHeading (order1Filled order2Filled : Bool) : ℕ :=
  (if order1Filled then 2 else 0) + (if order2Filled then 4 else 0)

omit [FluidexCommon] in
/-- The heading of a trade fits in its 3 bits. -/
theorem filledHeading_lt (order1Filled order2Filled : Bool) :
    filledHeading order1Filled order2Filled < 8 := by
  cases order1Filled <;> cases order2Filled <;> decide

/-- The heading of a trade: one of its orders must be filled. -/
def tradeHeading (payload : Payload) : Option ℕ := do
  let order1Filled ← (orderFilled (payload .newOrder1FilledBuy) (payload .newOrder1AmountBuy)
    (payload .newOrder1FilledSell) (payload .newOrder1AmountSell)).toOption
  let order2Filled ← (orderFilled (payload .newOrder2FilledBuy) (payload .newOrder2AmountBuy)
    (payload .newOrder2FilledSell) (payload .newOrder2AmountSell)).toOption
  let h := filledHeading order1Filled order2Filled
  if 0 < h then some h else none

/-- The heading of a transaction that can be published. -/
def RawTx.heading (tx : RawTx) : Option ℕ :=
  match tx.txType with
  | .deposit =>
    if tx.payload .dstIsNew ≠ 0 then if tx.payload .amount = 0 then some 1 else none
    else some 0
  | .transfer => if tx.payload .dstIsNew = 0 then some 0 else none
  | .withdraw => some 4
  | .spotTrade => tradeHeading tx.payload
  | .nop => some 0
  | .placeOrder => none

/-- The fields of the scheme of a transaction. -/
def RawTx.fields (e : TxDataEncoder) (tx : RawTx) : List FrField :=
  match tx.txType with
  | .deposit =>
    if tx.payload .dstIsNew ≠ 0 then l2KeyFields e tx.payload else commonFields e tx.payload
  | .transfer | .withdraw => commonFields e tx.payload
  | .spotTrade => spotTradeFields e tx.payload
  | .nop | .placeOrder => []

/-- The number of bits of the heading and the fields. -/
def recordBits (fields : List FrField) : ℕ := 3 + (fields.map FrField.width).sum

/-- The heading and the fields, then zeros. -/
def TxDataEncoder.record (e : TxDataEncoder) (heading : ℕ) (fields : List FrField) : List Bool :=
  Bits.ofNat 3 heading ++ Bits.encode (fields.map FrField.field) ++
    List.replicate (e.txEncodeBits - recordBits fields) false

/-- The encoder takes the longest scheme into account. -/
def TxDataEncoder.Sized (e : TxDataEncoder) : Prop :=
  e.txEncodeBits = dataBits e.accountBits e.tokenBits e.orderBits

omit [FluidexCommon] in
/-- The slot of a transaction is made of whole bytes, and no scheme is longer. -/
theorem dataBits_spec (accountBits tokenBits orderBits : ℕ) :
    dataBits accountBits tokenBits orderBits % 8 = 0 ∧
      3 + (128 + accountBits * 2 + tokenBits) ≤ dataBits accountBits tokenBits orderBits ∧
      3 + (224 + accountBits * 2 + tokenBits * 2 + orderBits * 2) ≤
        dataBits accountBits tokenBits orderBits ∧
      3 + (255 + accountBits) ≤ dataBits accountBits tokenBits orderBits := by
  unfold dataBits
  dsimp only
  split <;> omega

omit [FluidexCommon] in
/-- No transaction is longer than what all are padded to. -/
theorem RawTx.recordBits_le (he : e.Sized) (tx : RawTx) :
    recordBits (tx.fields e) ≤ e.txEncodeBits := by
  obtain ⟨-, hcommon, htrade, hkey⟩ := dataBits_spec e.accountBits e.tokenBits e.orderBits
  rw [← he] at hcommon htrade hkey
  have hnone : recordBits [] ≤ e.txEncodeBits := by
    rw [recordBits, List.map_nil, List.sum_nil]
    omega
  -- Each scheme with its heading is at most as long as the longest one, which the length is made
  -- from.
  have hcommon : recordBits (commonFields e tx.payload) ≤ e.txEncodeBits := by
    simp only [recordBits, commonFields, List.map_cons, List.map_nil, List.sum_cons, List.sum_nil]
    omega
  have hkey : recordBits (l2KeyFields e tx.payload) ≤ e.txEncodeBits := by
    simp only [recordBits, l2KeyFields, List.map_cons, List.map_nil, List.sum_cons, List.sum_nil]
    omega
  have htrade : recordBits (spotTradeFields e tx.payload) ≤ e.txEncodeBits := by
    simp only [recordBits, spotTradeFields, List.map_cons, List.map_nil, List.sum_cons,
      List.sum_nil]
    omega
  rw [RawTx.fields]
  split
  · split
    · exact hkey
    · exact hcommon
  · exact hcommon
  · exact hcommon
  · exact htrade
  · exact hnone
  · exact hnone

omit [FluidexCommon] in
/-- A heading is only written at the start of a slot. -/
theorem leads_encodeHeading {h : ℕ} (hh : h < 8) (l : List Bool) :
    (TxDataEncoder.encodeHeading h).Leads (e.holding l) e' ↔
      l.length % e.txEncodeBits = 0 ∧ e' = e.holding (l ++ Bits.ofNat 3 h) := by
  have hnat : (BitVec.ofNat 32 h).toNat = h :=
    (BitVec.toNat_ofNat _ _).trans (Nat.mod_eq_of_lt (by omega))
  have hwrite := writes_primint (e := e) (BitVec.ofNat 32 h) 3 l e'
  rw [hnat] at hwrite
  have halign : (e.holding l).ctx.checkAlign (e.holding l).txEncodeBits = _ :=
    BitEncodeContext.checkAlign_ofBits l e.txEncodeBits
  rw [TxDataEncoder.encodeHeading, leads_get, halign]
  split
  · next n hn =>
    split at hn
    · cases hn
    · next hmod => exact ⟨fun h => (by cases h), fun h => absurd h.1 hmod⟩
  · next hn =>
    split at hn
    · next hmod =>
      rw [hwrite]
      exact and_congr_left fun _ => ⟨fun _ => hmod, fun _ => hh⟩
    · cases hn

omit [FluidexCommon] in
/-- The padding is zeros up to the length of a transaction. -/
theorem leads_encodePadding (he : e.txEncodeBits ≠ 0) (l : List Bool) :
    TxDataEncoder.encodePadding.Leads (e.holding l) e' ↔ e' = e.holding
      (l ++ List.replicate (BitEncodeContext.missingBits l.length e.txEncodeBits) false) := by
  rw [TxDataEncoder.encodePadding, leads_get]
  rw [Leads, run_write, TxDataEncoder.holding, BitEncodeContext.padding_ofBits l he]
  exact ⟨fun h => (congrArg Prod.snd (Except.ok.inj h)).symm, fun h => h ▸ rfl⟩

omit [FluidexCommon] in
/-- The bits missing after the heading and the fields. -/
theorem missingBits_of_le {l k n : ℕ} (hl : l % n = 0) (hk : 0 < k) (hkn : k ≤ n) :
    BitEncodeContext.missingBits (l + k) n = n - k := by
  have hmod : (l + k) % n = k % n := by rw [Nat.add_mod, hl, Nat.zero_add, Nat.mod_mod]
  rw [BitEncodeContext.missingBits, hmod]
  rcases hkn.lt_or_eq with hlt | rfl
  · rw [Nat.mod_eq_of_lt hlt, if_neg hk.ne']
  · rw [Nat.mod_self, if_pos rfl, Nat.sub_self]

/-- The encoder, at the start of a slot, has written a record. -/
structure Recorded (e : TxDataEncoder) (l : List Bool) (h : ℕ) (fields : List FrField)
    (e' : TxDataEncoder) : Prop where
  aligned : l.length % e.txEncodeBits = 0
  fits : ∀ f ∈ fields, f.Fits
  eq : e' = e.holding (l ++ e.record h fields)

/-- A heading, fields and the padding make a record. -/
theorem leads_record {h : ℕ} (hh : h < 8) {fields : List FrField} (hx : x.WritesFields e fields)
    (hle : recordBits fields ≤ e.txEncodeBits) (l : List Bool) :
    (do TxDataEncoder.encodeHeading h; x; TxDataEncoder.encodePadding : Encoding Unit).Leads
      (e.holding l) e' ↔ Recorded e l h fields e' := by
  have hlen : (l ++ Bits.ofNat 3 h ++ Bits.encode (fields.map FrField.field)).length =
      l.length + recordBits fields := by
    rw [List.length_append, List.length_append, Bits.length_ofNat, Bits.length_encode, List.map_map,
      recordBits, Nat.add_assoc]
    rfl
  -- A transaction that begins at a multiple of the length is padded up to the next one.
  have hpad : l.length % e.txEncodeBits = 0 →
      BitEncodeContext.missingBits (l.length + recordBits fields) e.txEncodeBits =
        e.txEncodeBits - recordBits fields :=
    fun hl => missingBits_of_le hl (Nat.add_pos_left (by decide) _) hle
  have hsize : e.txEncodeBits ≠ 0 := by
    rw [recordBits] at hle
    omega
  rw [leads_bind]
  constructor
  · rintro ⟨_, e₁, h₁, h₂⟩
    obtain ⟨hl, rfl⟩ := (leads_encodeHeading hh l).1 h₁
    obtain ⟨_, e₂, hx', hpadding⟩ := leads_bind.1 h₂
    obtain ⟨hfits, rfl⟩ := (hx _ _).1 hx'
    rw [leads_encodePadding hsize, hlen, hpad hl, List.append_assoc, List.append_assoc] at hpadding
    refine ⟨hl, hfits, ?_⟩
    rw [hpadding, TxDataEncoder.record, List.append_assoc]
  · rintro ⟨hl, hfits, rfl⟩
    refine ⟨(), _, (leads_encodeHeading hh l).2 ⟨hl, rfl⟩, leads_bind.2 ⟨(), _, (hx _ _).2 ⟨hfits, rfl⟩, ?_⟩⟩
    rw [leads_encodePadding hsize, hlen, hpad hl, List.append_assoc, List.append_assoc,
      TxDataEncoder.record, List.append_assoc]

omit [FluidexCommon] in
/-- What is written after a computation that does not depend on the encoder. -/
theorem leads_lift {α : Type} {v : Except Panic α} {f : α → Encoding Unit} :
    (lift v >>= f).Leads e e' ↔ ∃ a, v = .ok a ∧ (f a).Leads e e' := by
  rw [leads_bind]
  cases v with
  | error err =>
    constructor
    · rintro ⟨_, _, h, -⟩
      cases h
    · rintro ⟨_, h, -⟩
      cases h
  | ok a =>
    constructor
    · rintro ⟨_, _, h, hf⟩
      obtain ⟨hr, rfl⟩ := Prod.mk.inj (Except.ok.inj h)
      exact ⟨a, rfl, Except.ok.inj hr ▸ hf⟩
    · rintro ⟨_, h, hf⟩
      exact ⟨a, e, rfl, Except.ok.inj h ▸ hf⟩

omit [FluidexCommon] in
/-- An assertion must be true for the rest to be written. -/
theorem leads_assert {p : Prop} [Decidable p] {text : String} {f : Unit → Encoding Unit} :
    (lift (assert p text) >>= f).Leads e e' ↔ p ∧ (f ()).Leads e e' := by
  rw [leads_lift]
  constructor
  · rintro ⟨_, h, hf⟩
    exact ⟨Exec.assert_eq_ok_iff.1 h, hf⟩
  · rintro ⟨h, hf⟩
    exact ⟨(), Exec.assert_of h, hf⟩

omit [FluidexCommon] in
/-- A result must be there for the rest to be written. -/
theorem leads_liftExcept {α : Type} {v : Except AnyhowError α} {f : α → Encoding Unit} :
    (encodeRawtxToPubdata.liftExcept v >>= f).Leads e e' ↔
      ∃ a, v.toOption = some a ∧ (f a).Leads e e' := by
  rw [leads_bind]
  cases v with
  | error err =>
    constructor
    · rintro ⟨_, _, h, -⟩
      cases h
    · rintro ⟨_, h, -⟩
      cases h
  | ok a =>
    constructor
    · rintro ⟨_, _, h, hf⟩
      obtain ⟨hr, rfl⟩ := Prod.mk.inj (Except.ok.inj h)
      exact ⟨a, rfl, Except.ok.inj hr ▸ hf⟩
    · rintro ⟨_, h, hf⟩
      exact ⟨a, e, rfl, Option.some.inj h ▸ hf⟩

/-- A trade has a heading if one of its orders is filled. -/
theorem tradeHeading_eq_some_iff {payload : Payload} {h : ℕ} :
    tradeHeading payload = some h ↔ ∃ order1Filled order2Filled,
      (orderFilled (payload .newOrder1FilledBuy) (payload .newOrder1AmountBuy)
        (payload .newOrder1FilledSell) (payload .newOrder1AmountSell)).toOption =
          some order1Filled ∧
      (orderFilled (payload .newOrder2FilledBuy) (payload .newOrder2AmountBuy)
        (payload .newOrder2FilledSell) (payload .newOrder2AmountSell)).toOption =
          some order2Filled ∧
      0 < filledHeading order1Filled order2Filled ∧
      filledHeading order1Filled order2Filled = h := by
  simp only [tradeHeading, Option.bind_eq_bind, Option.bind_eq_some_iff,
    Option.ite_none_right_eq_some, Option.some.injEq]
  constructor
  · rintro ⟨order1Filled, h₁, order2Filled, h₂, hh⟩
    exact ⟨order1Filled, order2Filled, h₁, h₂, hh⟩
  · rintro ⟨order1Filled, order2Filled, h₁, h₂, hh⟩
    exact ⟨order1Filled, h₁, order2Filled, h₂, hh⟩

/-- A transaction is encoded exactly at the start of a slot, if it has a heading and its
    fields fit; its record is then appended. -/
theorem encodeRawtxToPubdata_leads_iff (he : e.Sized) {tx : RawTx} (htx : tx.txType ≠ .placeOrder)
    (l : List Bool) : (encodeRawtxToPubdata tx).Leads (e.holding l) e' ↔
      ∃ h, tx.heading = some h ∧ Recorded e l h (tx.fields e) e' := by
  have hle := tx.recordBits_le he
  unfold encodeRawtxToPubdata RawTx.heading
  rw [RawTx.fields] at hle ⊢
  cases hty : tx.txType with
  -- What a deposit publishes depends on whether it brings a key.
  | deposit =>
    simp only [hty] at hle ⊢
    split
    · next hnew =>
      rw [if_pos hnew] at hle
      rw [leads_assert, leads_record (by decide) (writesFields_forL2KeyTx _) hle]
      simp only [Option.ite_none_right_eq_some, Option.some.injEq, and_assoc, exists_and_left,
        exists_eq_left']
    · next hold =>
      rw [if_neg hold] at hle
      rw [leads_record (by decide) (writesFields_forCommonTx _) hle]
      simp only [Option.some.injEq, exists_eq_left']
  | transfer =>
    simp only [hty] at hle ⊢
    rw [leads_assert, leads_record (by decide) (writesFields_forCommonTx _) hle]
    simp only [Option.ite_none_right_eq_some, Option.some.injEq, and_assoc, exists_and_left,
      exists_eq_left']
  | withdraw =>
    simp only [hty] at hle ⊢
    rw [leads_record (by decide) (writesFields_forCommonTx _) hle]
    simp only [Option.some.injEq, exists_eq_left']
  -- The heading says which of the two orders are filled; one of them must be.
  | spotTrade =>
    simp only [hty] at hle ⊢
    have hrecord : ∀ b₁ b₂, (do
        TxDataEncoder.encodeHeading (filledHeading b₁ b₂)
        forSpotTradeTx tx.payload
        TxDataEncoder.encodePadding : Encoding Unit).Leads (e.holding l) e' ↔
          Recorded e l (filledHeading b₁ b₂) (spotTradeFields e tx.payload) e' :=
      fun b₁ b₂ => leads_record (filledHeading_lt b₁ b₂) (writesFields_forSpotTradeTx _) hle l
    simp only [leads_liftExcept, leads_assert, tradeHeading_eq_some_iff]
    constructor
    · rintro ⟨b₁, h₁, b₂, h₂, hpos, hleads⟩
      exact ⟨_, ⟨b₁, b₂, h₁, h₂, hpos, rfl⟩, (hrecord b₁ b₂).1 hleads⟩
    · rintro ⟨_, ⟨b₁, b₂, h₁, h₂, hpos, rfl⟩, hrec⟩
      exact ⟨b₁, h₁, b₂, h₂, hpos, (hrecord b₁ b₂).2 hrec⟩
  | nop =>
    simp only [hty] at hle ⊢
    -- Nothing stands between the heading and the padding.
    have hrecord : (do
        TxDataEncoder.encodeHeading 0
        writeFields []
        TxDataEncoder.encodePadding : Encoding Unit).Leads (e.holding l) e' ↔
          Recorded e l 0 [] e' :=
      leads_record (by decide) (writesFields_writeFields []) hle l
    rw [writeFields, pure_bind] at hrecord
    rw [hrecord]
    simp only [Option.some.injEq, exists_eq_left']
  | placeOrder => exact absurd hty htx

end Writing

end Rollup
