import Rollup.Blocks
import Rollup.Emitted
import Rollup.Encode.Writes

/-!
# The records of a block

The public data of a block is made of one record for each transaction, all of them
of the same length: what the transaction gives when it is encoded alone
(`publicData_records`). The encoder is then as it was before the block.
-/

namespace Rollup

section Records

variable [FluidexCommon] {e e' : TxDataEncoder} {tx : RawTx} {txs : List RawTx}

/-! ## One transaction -/

/-- The transaction can be published, and this is its record. -/
def RawTx.WritesRecord (tx : RawTx) (e : TxDataEncoder) (r : List Bool) : Prop :=
  ∃ h, tx.heading = some h ∧ (∀ f ∈ tx.fields e, f.Fits) ∧ r = e.record h (tx.fields e)

/-- Encoded alone, by an encoder that holds nothing, the transaction gives these bytes. -/
def RawTx.HasRecord (tx : RawTx) (e : TxDataEncoder) (bytes : List UInt8) : Prop :=
  ∃ e', (encodeRawtxToPubdata tx).Leads (e.holding []) e' ∧ e'.finishWithRaw.1.2 = bytes

theorem TxDataEncoder.length_record {fields : List FrField} (hle : recordBits fields ≤ e.txEncodeBits)
    (h : ℕ) : (e.record h fields).length = e.txEncodeBits := by
  rw [recordBits] at hle
  rw [TxDataEncoder.record, List.length_append, List.length_append, Bits.length_ofNat,
    Bits.length_encode, List.map_map, List.length_replicate, recordBits]
  exact Nat.add_sub_of_le hle

theorem RawTx.WritesRecord.length_eq (he : e.Sized) {r : List Bool} (h : tx.WritesRecord e r) :
    r.length = e.txEncodeBits := by
  obtain ⟨h, -, -, rfl⟩ := h
  exact TxDataEncoder.length_record (tx.recordBits_le he) h

omit [FluidexCommon] in
/-- A record is made of whole bytes. -/
theorem TxDataEncoder.Sized.txEncodeBits_mod (he : e.Sized) : e.txEncodeBits % 8 = 0 :=
  he ▸ (dataBits_spec _ _ _).1

/-- At the start of a slot, a transaction adds its record. -/
theorem encodeRawtxToPubdata_leads_iff_record (he : e.Sized) (htx : tx.txType ≠ .placeOrder)
    {l : List Bool} (hl : l.length % e.txEncodeBits = 0) :
    (encodeRawtxToPubdata tx).Leads (e.holding l) e' ↔
      ∃ r, tx.WritesRecord e r ∧ e' = e.holding (l ++ r) := by
  rw [encodeRawtxToPubdata_leads_iff he htx]
  constructor
  · rintro ⟨h, hh, -, hfits, rfl⟩
    exact ⟨_, ⟨h, hh, hfits, rfl⟩, rfl⟩
  · rintro ⟨_, ⟨h, hh, hfits, rfl⟩, rfl⟩
    exact ⟨h, hh, hl, hfits, rfl⟩

theorem RawTx.hasRecord_iff (he : e.Sized) (htx : tx.txType ≠ .placeOrder) {bytes : List UInt8} :
    tx.HasRecord e bytes ↔
      ∃ r, tx.WritesRecord e r ∧ (BitEncodeContext.ofBits r).sealBuf = bytes := by
  rw [RawTx.HasRecord]
  constructor
  · rintro ⟨e', hleads, rfl⟩
    obtain ⟨r, hr, rfl⟩ := (encodeRawtxToPubdata_leads_iff_record he htx (Nat.zero_mod _)).1 hleads
    exact ⟨r, hr, rfl⟩
  · rintro ⟨r, hr, rfl⟩
    exact ⟨_, (encodeRawtxToPubdata_leads_iff_record he htx (Nat.zero_mod _)).2 ⟨r, hr, rfl⟩, rfl⟩

/-- The bits of a record are those of its bytes. -/
theorem RawTx.HasRecord.bits (he : e.Sized) (htx : tx.txType ≠ .placeOrder) {bytes : List UInt8}
    (hbytes : tx.HasRecord e bytes) : ∃ h, tx.heading = some h ∧ (∀ f ∈ tx.fields e, f.Fits) ∧
      bytes.flatMap BitEncodeContext.byteBits = e.record h (tx.fields e) := by
  obtain ⟨r, hr, rfl⟩ := (RawTx.hasRecord_iff he htx).1 hbytes
  have hmod : r.length % 8 = 0 := (hr.length_eq he).symm ▸ he.txEncodeBits_mod
  obtain ⟨h, hh, hfits, rfl⟩ := hr
  exact ⟨h, hh, hfits, BitEncodeContext.flatMap_byteBits_sealBuf hmod⟩

/-! ## All the transactions -/

theorem encodeAll_cons : encodeAll (tx :: txs) e = .ok e' ↔
    ∃ e₁, (encodeRawtxToPubdata tx).Leads e e₁ ∧ encodeAll txs e₁ = .ok e' := by
  simp only [encodeAll, Exec.bind_eq_ok_iff, Prod.exists, Exec.unwrap_eq_ok_iff,
    Exec.toOption_eq_some_iff, Encoding.Leads]
  constructor
  · rintro ⟨_, e₁, hrun, ⟨⟩, rfl, hrest⟩
    exact ⟨e₁, hrun, hrest⟩
  · rintro ⟨e₁, hrun, hrest⟩
    exact ⟨_, e₁, hrun, (), rfl, hrest⟩

theorem encodeAll_singleton : encodeAll [tx] e = .ok e' ↔ (encodeRawtxToPubdata tx).Leads e e' := by
  rw [encodeAll_cons]
  simp only [encodeAll, Exec.pure_eq_ok_iff, exists_eq_right]

/-- From the start of a slot, each transaction adds its record. -/
theorem encodeAll_eq_ok_iff (he : e.Sized) (htxs : ∀ tx ∈ txs, tx.txType ≠ .placeOrder)
    {l : List Bool} (hl : l.length % e.txEncodeBits = 0) : encodeAll txs (e.holding l) = .ok e' ↔
      ∃ records, List.Forall₂ (fun tx r => tx.WritesRecord e r) txs records ∧
        e' = e.holding (l ++ records.flatten) := by
  induction txs generalizing l with
  | nil =>
    simp only [encodeAll, Exec.pure_eq_ok_iff, List.forall₂_nil_left_iff, exists_eq_left,
      List.flatten_nil, List.append_nil]
    exact eq_comm
  | cons tx txs ih =>
    rw [List.forall_mem_cons] at htxs
    -- A record is as long as the length of a transaction, so the next one begins at a multiple of
    -- it.
    have hnext : ∀ {r}, tx.WritesRecord e r → (l ++ r).length % e.txEncodeBits = 0 := by
      intro r hr
      rw [List.length_append, hr.length_eq he, Nat.add_mod_right, hl]
    rw [encodeAll_cons]
    constructor
    · rintro ⟨e₁, htx, hrest⟩
      obtain ⟨r, hr, rfl⟩ := (encodeRawtxToPubdata_leads_iff_record he htxs.1 hl).1 htx
      obtain ⟨records, hrecords, rfl⟩ := (ih htxs.2 (hnext hr)).1 hrest
      exact ⟨r :: records, .cons hr hrecords, by rw [List.flatten_cons, List.append_assoc]⟩
    · rintro ⟨_, hrecords, rfl⟩
      cases hrecords with
      | @cons _ r _ records hr hrecords =>
        have hflatten : l ++ (r :: records).flatten = l ++ r ++ records.flatten := by
          rw [List.flatten_cons, List.append_assoc]
        have hrest := (ih htxs.2 (hnext hr)).2 ⟨records, hrecords, congrArg e.holding hflatten⟩
        exact ⟨_, (encodeRawtxToPubdata_leads_iff_record he htxs.1 hl).2 ⟨r, hr, rfl⟩, hrest⟩

omit [FluidexCommon] in
/-- The bytes of records are the bytes of each of them. -/
theorem sealBuf_flatten {k : ℕ} (hk : k % 8 = 0) {records : List (List Bool)}
    (h : ∀ r ∈ records, r.length = k) : (BitEncodeContext.ofBits records.flatten).sealBuf =
      (records.map fun r => (BitEncodeContext.ofBits r).sealBuf).flatten := by
  induction records with
  | nil => rfl
  | cons r records ih =>
    rw [List.forall_mem_cons] at h
    rw [List.flatten_cons, BitEncodeContext.sealBuf_append (by rw [h.1, hk]), ih h.2, List.map_cons,
      List.flatten_cons]

/-! ## Blocks -/

/-- Emitted in a run of a manager of these levels, whose operations all satisfy `p`. -/
def RawTx.EmittedBy (lv : Levels) (p : Op → Prop) (tx : RawTx) : Prop :=
  ∃ nTx blockOffset persistEveryNBlock n, Exec.Reachable Node.step (fun _ op => p op)
    (Node.new lv nTx blockOffset persistEveryNBlock) n ∧ tx ∈ n.emitted

/-- What emits a raw transaction. -/
theorem RawTx.EmittedBy.exists_emits {lv : Levels} {p : Op → Prop} (h : tx.EmittedBy lv p) :
    ∃ nTx blockOffset persistEveryNBlock n op, ∃ L : Ledger lv, Exec.Reachable Node.step
      (fun _ op => p op) (Node.new lv nTx blockOffset persistEveryNBlock) n ∧ p op ∧
        Shows n.state L ∧ op.Emits n.state L tx := by
  obtain ⟨nTx, blockOffset, persistEveryNBlock, n, hn, htx⟩ := h
  obtain ⟨m, op, L, hm, hop, hL, hemits⟩ := Node.exists_emits hn htx
  exact ⟨nTx, blockOffset, persistEveryNBlock, m, op, L, hm, hop, hL, hemits⟩

theorem Op.Emits.txType_ne {lv : Levels} {s : GlobalState lv} {L : Ledger lv} {op : Op}
    (h : op.Emits s L tx) : tx.txType ≠ .placeOrder := by
  cases h with
  | keyUpdate hof _ _ | deposit hof _ _ | transfer hof _ _ _ | withdraw hof _ _
  | fullSpotTrade hof _ _ _ _ =>
    rw [hof.1]
    decide
  | nop _ => exact fun h => by cases h

theorem RawTx.EmittedBy.txType_ne {lv : Levels} {p : Op → Prop} (h : tx.EmittedBy lv p) :
    tx.txType ≠ .placeOrder := by
  obtain ⟨_, _, _, n, op, L, -, -, -, hemits⟩ := h.exists_emits
  exact hemits.txType_ne

/-- The public data of transactions: a slot for each of them, with its record. -/
structure PublicRecords (e : TxDataEncoder) (txs : List RawTx) (bytes : List UInt8) : Prop where
  length_eq : bytes.length = txs.length * (e.txEncodeBits / 8)
  /-- The bytes of a slot are what its transaction gives alone. -/
  hasRecord : ∀ (i : ℕ) (tx : RawTx), txs[i]? = some tx →
    tx.HasRecord e ((bytes.drop (i * (e.txEncodeBits / 8))).take (e.txEncodeBits / 8))
  /-- The bits of a slot are a heading, the fields of a scheme, and zeros. -/
  bits : ∀ (i : ℕ) (tx : RawTx), txs[i]? = some tx → ∃ h, tx.heading = some h ∧
    ((bytes.drop (i * (e.txEncodeBits / 8))).take (e.txEncodeBits / 8)).flatMap
      BitEncodeContext.byteBits = e.record h (tx.fields e)
  /-- Each transaction is encoded from the start of its slot. -/
  aligned : ∀ i ≤ txs.length, ∃ e', encodeAll (txs.take i) (e.holding []) = .ok e' ∧
    e'.ctx.checkAlign e.txEncodeBits = .ok ()

theorem encodeAll_publicRecords (he : e.Sized) (htxs : ∀ tx ∈ txs, tx.txType ≠ .placeOrder)
    (hr : encodeAll txs (e.holding []) = .ok e') :
    PublicRecords e txs e'.finishWithRaw.1.2 ∧ e'.finishWithRaw.2 = e.holding [] := by
  obtain ⟨records, hrecords, rfl⟩ := (encodeAll_eq_ok_iff he htxs (Nat.zero_mod _)).1 hr
  have hlen : ∀ r ∈ records, r.length = e.txEncodeBits := by
    intro r hmem
    obtain ⟨tx, -, htx⟩ := Bits.exists_mem_of_forall₂ hrecords hmem
    exact htx.length_eq he
  have hmod : e.txEncodeBits % 8 = 0 := he.txEncodeBits_mod
  -- The bytes of the block, record by record.
  have hbytes : (e.holding ([] ++ records.flatten)).finishWithRaw.1.2 =
      (records.map fun r => (BitEncodeContext.ofBits r).sealBuf).flatten := sealBuf_flatten hmod hlen
  have hpieces : ∀ p ∈ records.map fun r => (BitEncodeContext.ofBits r).sealBuf,
      p.length = e.txEncodeBits / 8 := by
    intro p hp
    obtain ⟨r, hr, rfl⟩ := List.mem_map.1 hp
    rw [BitEncodeContext.length_sealBuf (by rw [hlen r hr, hmod]), hlen r hr]
  have hslot : ∀ (i : ℕ) (tx : RawTx), txs[i]? = some tx → tx.HasRecord e
      ((((e.holding ([] ++ records.flatten)).finishWithRaw.1.2).drop (i * (e.txEncodeBits / 8))).take
        (e.txEncodeBits / 8)) := by
    intro i tx htx
    obtain ⟨r, hr, hrec⟩ := Bits.exists_getElem?_of_forall₂ hrecords htx
    rw [hbytes, Bits.take_drop_flatten hpieces (by rw [List.getElem?_map, hr, Option.map_some])]
    exact (RawTx.hasRecord_iff he (htxs tx (List.mem_of_getElem? htx))).2 ⟨r, hrec, rfl⟩
  refine ⟨⟨?_, hslot, fun i tx htx => ?_, fun i hi => ?_⟩, rfl⟩
  · rw [hbytes, Bits.length_flatten_of hpieces, List.length_map, hrecords.length_eq]
  · obtain ⟨h, hh, -, hbits⟩ := (hslot i tx htx).bits he (htxs tx (List.mem_of_getElem? htx))
    exact ⟨h, hh, hbits⟩
  · have htake : List.Forall₂ (fun tx r => RawTx.WritesRecord tx e r) (txs.take i) (records.take i) :=
      List.forall₂_take i hrecords
    refine ⟨_, (encodeAll_eq_ok_iff he (fun tx htx => htxs tx (List.mem_of_mem_take htx))
      (Nat.zero_mod _)).2 ⟨records.take i, htake, rfl⟩, ?_⟩
    have hlen' : ∀ r ∈ records.take i, r.length = e.txEncodeBits :=
      fun r hr => hlen r (List.mem_of_mem_take hr)
    rw [TxDataEncoder.holding, BitEncodeContext.checkAlign_ofBits, List.nil_append,
      Bits.length_flatten_of hlen', Nat.mul_mod_left, if_pos rfl]

omit [FluidexCommon] in
theorem TxDataEncoder.sized_new (balanceLevels orderLevels accountLevels : ℕ) :
    (TxDataEncoder.new balanceLevels orderLevels accountLevels).Sized := rfl

/-- The public data of a block is made of the records of its transactions, and nothing is
    left in the encoder for the next block. -/
theorem publicData_records (balanceLevels orderLevels accountLevels : ℕ)
    (htxs : ∀ tx ∈ txs, ∃ lv, tx.EmittedBy lv fun _ => True) {blockId : ℕ} {block : L2Block}
    (hr : forgeWithTxs blockId txs (TxDataEncoder.new balanceLevels orderLevels accountLevels) =
      .ok (block, e')) :
    PublicRecords (TxDataEncoder.new balanceLevels orderLevels accountLevels) txs block.publicData ∧
      e' = TxDataEncoder.new balanceLevels orderLevels accountLevels := by
  simp only [forgeWithTxs, Exec.bind_eq_ok_iff, Exec.unwrap_eq_ok_iff, Exec.pure_eq_ok_iff,
    Prod.mk.injEq] at hr
  obtain ⟨e₁, hall, -, -, -, -, rfl, rfl⟩ := hr
  refine encodeAll_publicRecords (TxDataEncoder.sized_new _ _ _) (fun tx htx => ?_) hall
  obtain ⟨lv, hemitted⟩ := htxs tx htx
  exact hemitted.txType_ne

end Records

attribute [local instance] FluidexCommon.sample in
theorem publicData_records_streamOps : ∃ n block e',
    Exec.run Node.step (Node.new Levels.small 2 (some 7) 100) streamOps = .ok n ∧
      forgeWithTxs 7 n.emitted (TxDataEncoder.new 2 1 2) = .ok (block, e') ∧
      PublicRecords (TxDataEncoder.new 2 1 2) n.emitted block.publicData := by
  obtain ⟨_, hn⟩ := Exec.exists_eq_ok (do
    let n ← Exec.run Node.step (Node.new Levels.small 2 (some 7) 100) streamOps
    let r ← forgeWithTxs 7 n.emitted (TxDataEncoder.new 2 1 2)
    pure (n, r)) (by decide +kernel)
  simp only [Exec.bind_eq_ok_iff, Prod.exists] at hn
  obtain ⟨n, hrun, block, e', hforge, -⟩ := hn
  have hemitted : ∀ tx ∈ n.emitted, ∃ lv, tx.EmittedBy lv fun _ => True := fun tx htx =>
    ⟨_, _, _, _, n, Exec.Reachable.init.run (fun _ _ _ => trivial) hrun, htx⟩
  exact ⟨n, block, e', hrun, hforge, (publicData_records 2 1 2 hemitted hforge).1⟩

end Rollup
