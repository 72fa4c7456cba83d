import Rollup.Encode.Floats
import Rollup.Records

/-!
# Reading the public data

The record of a transaction determines what it publishes (`published_eq_of_hasRecord`).
The heading separates key updates and common transactions from the others; a
withdrawal and a trade may share theirs, but the accounts of a trade are different,
and those of a withdrawal are not.
-/

namespace Rollup

section Decoding

variable [FluidexCommon]

/-! ## What is published -/

/-- An order of a trade, as it is published. -/
@[ext]
structure PublishedOrder where
  accountId : Fr
  tokenSell : Fr
  totalSell : Option Fr
  totalBuy : Option Fr
  pos : Fr
  orderId : Fr
  filled : Option Bool

/-- What the public data of a transaction say of it. -/
inductive Published where
  | common (accountId1 accountId2 tokenId amount : Fr)
  | withdraw (accountId1 accountId2 tokenId amount : Fr)
  | keyUpdate (accountId sign ay : Fr)
  | spotTrade (order1 order2 : PublishedOrder)

/-- The totals are those that were compressed, and can be decompressed (`compressTotals_spec`). -/
def publishedOrder1 (p : Payload) : PublishedOrder where
  accountId := p .accountId1
  tokenSell := p .newOrder1TokenSell
  totalSell := (decompressFr (p .newOrder1AmountSell)).toOption
  totalBuy := (decompressFr (p .newOrder1AmountBuy)).toOption
  pos := p .order1Pos
  orderId := p .newOrder1Id
  filled := (orderFilled (p .newOrder1FilledBuy) (p .newOrder1AmountBuy)
    (p .newOrder1FilledSell) (p .newOrder1AmountSell)).toOption

/-- The second order of a trade, at the inputs that are its own. -/
def publishedOrder2 (p : Payload) : PublishedOrder where
  accountId := p .accountId2
  tokenSell := p .newOrder2TokenSell
  totalSell := (decompressFr (p .newOrder2AmountSell)).toOption
  totalBuy := (decompressFr (p .newOrder2AmountBuy)).toOption
  pos := p .order2Pos
  orderId := p .newOrder2Id
  filled := (orderFilled (p .newOrder2FilledBuy) (p .newOrder2AmountBuy)
    (p .newOrder2FilledSell) (p .newOrder2AmountSell)).toOption

/-- The contents of the record that the encoder writes for a transaction. -/
def RawTx.published (tx : RawTx) : Published :=
  let p := tx.payload
  match tx.txType with
  | .deposit =>
    if p .dstIsNew ≠ 0 then .keyUpdate (p .accountId1) (p .sign2) (p .ay2)
    else .common (p .accountId1) (p .accountId2) (p .tokenId1) (p .amount)
  | .withdraw => .withdraw (p .accountId1) (p .accountId2) (p .tokenId1) (p .amount)
  | .spotTrade => .spotTrade (publishedOrder1 p) (publishedOrder2 p)
  | .transfer | .nop | .placeOrder =>
    .common (p .accountId1) (p .accountId2) (p .tokenId1) (p .amount)

/-! ## Fields -/

variable [FluidexCommon.Documented]

/-- The field is written in full. -/
def FrField.Full (f : FrField) : Prop := f.number?.isSome ∧ f.field.Fits

/-- Fields of the same widths that are written in full are read back. -/
theorem map_fr_eq_of_encode {fields fields' : List FrField} {rest rest' : List Bool}
    (hf : ∀ f ∈ fields, f.Full) (hf' : ∀ f ∈ fields', f.Full)
    (h : Bits.encode (fields.map FrField.field) ++ rest =
      Bits.encode (fields'.map FrField.field) ++ rest')
    (hw : fields.map FrField.width = fields'.map FrField.width) :
    fields.map FrField.fr = fields'.map FrField.fr := by
  have hfields : fields.map FrField.field = fields'.map FrField.field := by
    refine (Bits.encode_inj ?_ ?_ ?_ h).1
    · rw [List.map_map, List.map_map]
      exact hw
    · simpa only [List.forall_mem_map] using fun f hmem => (hf f hmem).2
    · simpa only [List.forall_mem_map] using fun f hmem => (hf' f hmem).2
  clear h hw
  induction fields generalizing fields' with
  | nil =>
    obtain rfl := List.map_eq_nil_iff.1 hfields.symm
    rfl
  | cons f fields ih =>
    cases fields' with
    | nil => cases hfields
    | cons f' fields' =>
      rw [List.forall_mem_cons] at hf hf'
      obtain ⟨hfield, hrest⟩ := List.cons.inj hfields
      rw [FrField.field_eq hf.1.1, FrField.field_eq hf'.1.1, Bits.Field.mk.injEq] at hfield
      rw [List.map_cons, List.map_cons, ih hf.2 hf'.2 hrest, ZMod.val_injective _ hfield.1]

/-! ## Records -/

/-- How the payload of an emitted transaction is read from its record: the heading, the
    fields and what they publish. -/
inductive Payload.Reads (e : TxDataEncoder) (p : Payload) : ℕ → List FrField → Published → Prop
  | common : Reads e p 0 (commonFields e p)
      (.common (p .accountId1) (p .accountId2) (p .tokenId1) (p .amount))
  | keyUpdate : Reads e p 1 (l2KeyFields e p) (.keyUpdate (p .accountId1) (p .sign2) (p .ay2))
  | withdraw : p .accountId1 = p .accountId2 → Reads e p 4 (commonFields e p)
      (.withdraw (p .accountId1) (p .accountId2) (p .tokenId1) (p .amount))
  | spotTrade {filled1 filled2 : Bool} : p .accountId1 ≠ p .accountId2 →
      (publishedOrder1 p).filled = some filled1 → (publishedOrder2 p).filled = some filled2 →
      0 < filledHeading filled1 filled2 →
      Reads e p (filledHeading filled1 filled2) (spotTradeFields e p)
        (.spotTrade (publishedOrder1 p) (publishedOrder2 p))

variable {e : TxDataEncoder}

omit [FluidexCommon.Documented] in
theorem Payload.Reads.lt {p : Payload} {h : ℕ} {fields : List FrField} {d : Published}
    (hr : p.Reads e h fields d) : h < 8 := by
  cases hr with
  | common | keyUpdate | withdraw _ => decide
  | spotTrade _ _ _ _ => exact filledHeading_lt _ _

omit [FluidexCommon] [FluidexCommon.Documented] in
/-- The flags of a trade are read from its heading. -/
theorem filledHeading_inj {filled1 filled2 filled1' filled2' : Bool}
    (h : filledHeading filled1 filled2 = filledHeading filled1' filled2') :
    filled1 = filled1' ∧ filled2 = filled2' := by
  revert filled1 filled2 filled1' filled2'
  decide

omit [FluidexCommon] [FluidexCommon.Documented] in
/-- A trade does not have the heading of a key update or of a common transaction. -/
theorem two_le_filledHeading {filled1 filled2 : Bool} (h : 0 < filledHeading filled1 filled2) :
    2 ≤ filledHeading filled1 filled2 := by
  revert filled1 filled2
  decide

/-- A withdrawal and a trade have different accounts in their records. -/
theorem withdraw_ne_spotTrade {p p' : Payload} (hp : p .accountId1 = p .accountId2)
    (hp' : p' .accountId1 ≠ p' .accountId2) (hf : ∀ f ∈ commonFields e p, f.Full)
    (hf' : ∀ f ∈ spotTradeFields e p', f.Full) {rest rest' : List Bool} :
    Bits.encode ((commonFields e p).map FrField.field) ++ rest ≠
      Bits.encode ((spotTradeFields e p').map FrField.field) ++ rest' := by
  intro h
  have hsplit : commonFields e p = (commonFields e p).take 2 ++ (commonFields e p).drop 2 :=
    (List.take_append_drop 2 _).symm
  have hsplit' : spotTradeFields e p' =
      (spotTradeFields e p').take 2 ++ (spotTradeFields e p').drop 2 :=
    (List.take_append_drop 2 _).symm
  rw [hsplit, hsplit', List.map_append, List.map_append, Bits.encode_append, Bits.encode_append,
    List.append_assoc, List.append_assoc] at h
  have haccounts := map_fr_eq_of_encode (fun f hmem => hf f (List.mem_of_mem_take hmem))
    (fun f hmem => hf' f (List.mem_of_mem_take hmem)) h rfl
  simp only [commonFields, spotTradeFields, List.take_succ_cons, List.take_zero, List.map_cons,
    List.map_nil, List.cons.injEq, and_true] at haccounts
  exact hp' (haccounts.1.symm.trans (hp.trans haccounts.2))

/-- What is published is read from the heading and the fields. -/
theorem Payload.Reads.eq_of_record_eq {p p' : Payload} {h h' : ℕ} {fields fields' : List FrField}
    {d d' : Published} (hr : p.Reads e h fields d) (hr' : p'.Reads e h' fields' d')
    (hf : ∀ f ∈ fields, f.Full) (hf' : ∀ f ∈ fields', f.Full)
    (heq : e.record h fields = e.record h' fields') : d = d' := by
  rw [TxDataEncoder.record, TxDataEncoder.record, List.append_assoc, List.append_assoc] at heq
  obtain ⟨hhead, hrest⟩ := List.append_inj heq (by rw [Bits.length_ofNat, Bits.length_ofNat])
  have hhead : h = h' := Bits.ofNat_inj hr.lt hr'.lt hhead
  -- the headings being the same, so are the classes, but for the withdrawals and the trades
  cases hr with
  | common =>
    cases hr' with
    | common =>
      have hfrs := map_fr_eq_of_encode hf hf' hrest rfl
      simp only [commonFields, List.map_cons, List.map_nil, List.cons.injEq, and_true] at hfrs
      obtain ⟨h1, h2, h3, h4⟩ := hfrs
      rw [h1, h2, h3, h4]
    | keyUpdate | withdraw _ => cases hhead
    | spotTrade _ _ _ hpos => exact absurd hhead hpos.ne
  | keyUpdate =>
    cases hr' with
    | keyUpdate =>
      have hfrs := map_fr_eq_of_encode hf hf' hrest rfl
      simp only [l2KeyFields, List.map_cons, List.map_nil, List.cons.injEq, and_true] at hfrs
      obtain ⟨h1, h2, h3⟩ := hfrs
      rw [h1, h2, h3]
    | common | withdraw _ => cases hhead
    | spotTrade _ _ _ hpos => have := two_le_filledHeading hpos; omega
  | withdraw hacc =>
    cases hr' with
    | withdraw _ =>
      have hfrs := map_fr_eq_of_encode hf hf' hrest rfl
      simp only [commonFields, List.map_cons, List.map_nil, List.cons.injEq, and_true] at hfrs
      obtain ⟨h1, h2, h3, h4⟩ := hfrs
      rw [h1, h2, h3, h4]
    | common | keyUpdate => cases hhead
    | spotTrade hne _ _ _ => exact absurd hrest (withdraw_ne_spotTrade hacc hne hf hf')
  | spotTrade hne hfill1 hfill2 hpos =>
    cases hr' with
    | common => exact absurd hhead hpos.ne'
    | keyUpdate => have := two_le_filledHeading hpos; omega
    | withdraw hacc => exact absurd hrest.symm (withdraw_ne_spotTrade hacc hne hf' hf)
    | spotTrade _ hfill1' hfill2' _ =>
      obtain ⟨rfl, rfl⟩ := filledHeading_inj hhead
      have hfrs := map_fr_eq_of_encode hf hf' hrest rfl
      simp only [spotTradeFields, List.map_cons, List.map_nil, List.cons.injEq, and_true] at hfrs
      obtain ⟨ha1, ha2, ht1, ht2, hs1, hb1, hp1, hi1, hs2, hb2, hp2, hi2⟩ := hfrs
      have htotal {c c' : Fr} (hc : c = c') :
          (decompressFr c).toOption = (decompressFr c').toOption :=
        hc ▸ rfl
      have h1 : publishedOrder1 p = publishedOrder1 p' :=
        PublishedOrder.ext ha1 ht1 (htotal hs1) (htotal hb1) hp1 hi1 (hfill1.trans hfill1'.symm)
      have h2 : publishedOrder2 p = publishedOrder2 p' :=
        PublishedOrder.ext ha2 ht2 (htotal hs2) (htotal hb2) hp2 hi2 (hfill2.trans hfill2'.symm)
      rw [h1, h2]

/-! ## Emitted transactions -/

/-- What the record of a transaction is read with. -/
structure RawTx.Emitted (tx : RawTx) : Prop where
  txType_ne : tx.txType ≠ .placeOrder
  nop : tx.txType = .nop → tx.payload = fun _ => 0
  withdraw : tx.txType = .withdraw → tx.payload .accountId1 = tx.payload .accountId2
  spotTrade : tx.txType = .spotTrade → tx.payload .accountId1 ≠ tx.payload .accountId2 ∧
    (tx.payload .newOrder1Id).val < 2 ^ 32 ∧ (tx.payload .newOrder2Id).val < 2 ^ 32

omit [FluidexCommon.Documented] in
theorem Op.Emits.emitted {lv : Levels} {s : GlobalState lv} {L : Ledger lv} {op : Op} {tx : RawTx}
    (h : op.Emits s L tx) (hL : Shows s L) (hs : s.OrdersTyped) (hop : op.Typed) : tx.Emitted := by
  refine ⟨h.txType_ne, fun htype => ?_, fun htype => ?_, fun htype => ?_⟩
  · cases h with
    | nop _ => rfl
    | keyUpdate hof _ _ | deposit hof _ _ | transfer hof _ _ _ | withdraw hof _ _
    | fullSpotTrade hof _ _ _ _ => cases hof.1.symm.trans htype
  · cases h with
    | withdraw _ _ hpayload => rw [hpayload, withdrawPayload, withdrawPayload]
    | keyUpdate hof _ _ | deposit hof _ _ | transfer hof _ _ _ | fullSpotTrade hof _ _ _ _ =>
      cases hof.1.symm.trans htype
    | nop _ => cases htype
  · cases h with
    | fullSpotTrade _ hT _ _ hdesc =>
      obtain ⟨amounts1, amounts2, -, -, hpayload⟩ := hdesc.payload
      -- different accounts are different in the field
      have ha1 := Levels.account_lt_u32 (hL.lt hT.entry1)
      have ha2 := Levels.account_lt_u32 (hL.lt hT.entry2)
      have hid1 := hs.takes hL.toHolds hop.1 hT.takes1
      have hid2 := hs.takes hL.toHolds hop.2 hT.takes2
      rw [hpayload]
      refine ⟨fun heq => hT.ne ?_, ?_, ?_⟩
      · have hval := congrArg ZMod.val heq
        rwa [spotTradePayload, spotTradePayload, Fr.val_natCast ha1 (by decide),
          Fr.val_natCast ha2 (by decide)] at hval
      · exact (Fr.val_natCast hid1 (by decide)).trans_lt hid1
      · exact (Fr.val_natCast hid2 (by decide)).trans_lt hid2
    | keyUpdate hof _ _ | deposit hof _ _ | transfer hof _ _ _ | withdraw hof _ _ =>
      cases hof.1.symm.trans htype
    | nop _ => cases htype

omit [FluidexCommon.Documented] in
theorem RawTx.EmittedBy.emitted {lv : Levels} {tx : RawTx} (h : tx.EmittedBy lv Op.Typed) :
    tx.Emitted := by
  obtain ⟨_, _, _, n, op, L, hn, hop, hL, hemits⟩ := h.exists_emits
  exact hemits.emitted hL (Node.ordersTyped (fun _ _ h => h) hn) hop

omit [FluidexCommon.Documented] in
theorem FrField.Fits.full {f : FrField} (h : f.Fits) (ht : f.truncated = false) : f.Full :=
  ⟨h.1, h.2.resolve_left (by rw [ht]; exact Bool.false_ne_true)⟩

/-- A nop is read as a transaction of zeros. -/
theorem record_nop (he : e.Sized) :
    (∀ f ∈ commonFields e fun _ => 0, f.Full) ∧
      e.record 0 [] = e.record 0 (commonFields e fun _ => 0) := by
  -- every field is zero, which can be written
  have hsome : ∀ f ∈ commonFields e fun _ => 0, f.number?.isSome ∧ f.fr = 0 := by
    intro f hmem
    have hfr : f.fr = 0 := by
      simp only [commonFields, List.mem_cons, List.not_mem_nil, or_false] at hmem
      rcases hmem with rfl | rfl | rfl | rfl <;> rfl
    refine ⟨?_, hfr⟩
    unfold FrField.number?
    rw [hfr, FluidexCommon.Documented.toI64_eq]
    split
    · rfl
    · rfl
  have hvalue : ∀ f ∈ commonFields e fun _ => 0, f.field.value = 0 := by
    intro f hmem
    rw [FrField.field_eq (hsome f hmem).1, (hsome f hmem).2]
    exact ZMod.val_zero (n := Fr.modulus)
  refine ⟨fun f hmem => ⟨(hsome f hmem).1, ?_⟩, ?_⟩
  · rw [Bits.Field.Fits, hvalue f hmem]
    exact Nat.two_pow_pos _
  · obtain ⟨-, hcommon, -, -⟩ := dataBits_spec e.accountBits e.tokenBits e.orderBits
    rw [← he] at hcommon
    have hzero : ∀ f ∈ (commonFields e fun _ => 0).map FrField.field, f.value = 0 := by
      simpa using hvalue
    rw [TxDataEncoder.record, TxDataEncoder.record, Bits.encode_zero hzero]
    simp only [commonFields, FrField.field, recordBits, List.map_cons, List.map_nil, List.sum_cons,
      List.sum_nil, Bits.encode, List.flatMap_nil, List.append_nil, List.append_assoc,
      List.replicate_append_replicate]
    exact congrArg (fun k => Bits.ofNat 3 0 ++ List.replicate k false) (by omega)

/-- Every record is read with the heading, the fields and the class of its transaction. -/
theorem RawTx.Emitted.reads {tx : RawTx} (htx : tx.Emitted) (he : e.Sized) {h : ℕ}
    (hh : tx.heading = some h) (hf : ∀ f ∈ tx.fields e, f.Fits) : ∃ fields,
      tx.payload.Reads e h fields tx.published ∧ (∀ f ∈ fields, f.Full) ∧
        e.record h (tx.fields e) = e.record h fields := by
  have hcommon : (∀ f ∈ commonFields e tx.payload, f.Fits) →
      ∀ f ∈ commonFields e tx.payload, f.Full := by
    intro hfits f hmem
    refine (hfits f hmem).full ?_
    simp only [commonFields, List.mem_cons, List.not_mem_nil, or_false] at hmem
    rcases hmem with rfl | rfl | rfl | rfl <;> rfl
  rw [RawTx.heading] at hh
  rw [RawTx.fields] at hf ⊢
  rw [RawTx.published]
  cases htype : tx.txType with
  | deposit =>
    simp only [htype] at hh hf ⊢
    split at hh
    · next hnew =>
      rw [Option.ite_none_right_eq_some, Option.some.injEq] at hh
      obtain ⟨-, rfl⟩ := hh
      rw [if_pos hnew] at hf
      rw [if_pos hnew, if_pos hnew]
      refine ⟨_, .keyUpdate, fun f hmem => (hf f hmem).full ?_, rfl⟩
      simp only [l2KeyFields, List.mem_cons, List.not_mem_nil, or_false] at hmem
      rcases hmem with rfl | rfl | rfl <;> rfl
    · next hold =>
      obtain rfl := Option.some.inj hh
      rw [if_neg hold] at hf
      rw [if_neg hold, if_neg hold]
      exact ⟨_, .common, hcommon hf, rfl⟩
  | transfer =>
    simp only [htype, Option.ite_none_right_eq_some, Option.some.injEq] at hh hf ⊢
    obtain ⟨-, rfl⟩ := hh
    exact ⟨_, .common, hcommon hf, rfl⟩
  | withdraw =>
    simp only [htype, Option.some.injEq] at hh hf ⊢
    subst hh
    exact ⟨_, .withdraw (htx.withdraw htype), hcommon hf, rfl⟩
  | spotTrade =>
    simp only [htype] at hh hf ⊢
    obtain ⟨hne, hid1, hid2⟩ := htx.spotTrade htype
    obtain ⟨filled1, filled2, hfill1, hfill2, hpos, rfl⟩ := tradeHeading_eq_some_iff.1 hh
    refine ⟨_, .spotTrade hne hfill1 hfill2 hpos, fun f hmem => ?_, rfl⟩
    -- only the ids of the orders are cut, and they fit
    by_cases ht : f.truncated
    · refine ⟨(hf f hmem).1, ?_⟩
      rw [FrField.field_eq (hf f hmem).1]
      simp only [spotTradeFields, List.mem_cons, List.not_mem_nil, or_false] at hmem
      rcases hmem with rfl | rfl | rfl | rfl | rfl | rfl | rfl | rfl | rfl | rfl | rfl | rfl
      all_goals first | exact absurd ht Bool.false_ne_true | exact hid1 | exact hid2
    · exact (hf f hmem).full (Bool.eq_false_of_not_eq_true ht)
  | nop =>
    simp only [htype, Option.some.injEq] at hh hf ⊢
    subst hh
    rw [htx.nop htype]
    obtain ⟨hfull, hrecord⟩ := record_nop he
    exact ⟨_, .common, hfull, hrecord⟩
  | placeOrder => exact absurd htype htx.txType_ne

omit [FluidexCommon.Documented] in
theorem compressTotals_eq_ok_iff {o : Order} {amounts : Fr × Fr} : compressTotals o = .ok amounts ↔
    compressFr o.totalSell = .ok amounts.1 ∧ compressFr o.totalBuy = .ok amounts.2 := by
  simp only [compressTotals, Exec.bind_eq_ok_iff, Exec.unwrap_eq_ok_iff, Exec.toOption_eq_some_iff,
    Exec.pure_eq_ok_iff]
  constructor
  · rintro ⟨sell, hsell, buy, hbuy, rfl⟩
    exact ⟨hsell, hbuy⟩
  · rintro ⟨hsell, hbuy⟩
    exact ⟨_, hsell, _, hbuy, rfl⟩

omit [FluidexCommon.Documented] in
/-- The totals of an order are found again from the compressed ones. -/
theorem compressTotals_spec [FluidexCommon.FloatLaws] {o : Order} {amounts : Fr × Fr}
    (h : compressTotals o = .ok amounts) :
    (amounts.1.val < 2 ^ 40 ∧ decompressFr amounts.1 = .ok o.totalSell) ∧
      amounts.2.val < 2 ^ 40 ∧ decompressFr amounts.2 = .ok o.totalBuy := by
  obtain ⟨hsell, hbuy⟩ := compressTotals_eq_ok_iff.1 h
  exact ⟨compressFr_spec hsell, compressFr_spec hbuy⟩

/-- Two transactions with the same record publish the same. -/
theorem published_eq_of_hasRecord (balanceLevels orderLevels accountLevels : ℕ) {tx tx' : RawTx}
    (htx : ∃ lv, tx.EmittedBy lv Op.Typed) (htx' : ∃ lv, tx'.EmittedBy lv Op.Typed)
    {bytes : List UInt8}
    (hr : tx.HasRecord (TxDataEncoder.new balanceLevels orderLevels accountLevels) bytes)
    (hr' : tx'.HasRecord (TxDataEncoder.new balanceLevels orderLevels accountLevels) bytes) :
    tx.published = tx'.published := by
  have he := TxDataEncoder.sized_new balanceLevels orderLevels accountLevels
  obtain ⟨lv, hby⟩ := htx
  obtain ⟨lv', hby'⟩ := htx'
  obtain ⟨h, hh, hf, hbits⟩ := hr.bits he hby.txType_ne
  obtain ⟨h', hh', hf', hbits'⟩ := hr'.bits he hby'.txType_ne
  obtain ⟨fields, hreads, hfull, hrec⟩ := hby.emitted.reads he hh hf
  obtain ⟨fields', hreads', hfull', hrec'⟩ := hby'.emitted.reads he hh' hf'
  refine hreads.eq_of_record_eq hreads' hfull hfull' ?_
  rw [← hrec, ← hrec', ← hbits, ← hbits']

end Decoding

/-- Two deposits that differ by the balance they find. -/
def depositOps : List Op :=
  [.keyUpdate ⟨0, ⟨1, 1, 5⟩⟩ none, .deposit ⟨0, 1, 50, none⟩ none, .deposit ⟨0, 1, 50, none⟩ none]

attribute [local instance] FluidexCommon.sample in
theorem published_eq_of_hasRecord_depositOps : ∃ n tx tx' bytes,
    Exec.run Node.step (Node.new Levels.small 2 none 100) depositOps = .ok n ∧
      n.emitted[1]? = some tx ∧ n.emitted[2]? = some tx' ∧
      tx.HasRecord (TxDataEncoder.new 2 1 2) bytes ∧ tx'.HasRecord (TxDataEncoder.new 2 1 2) bytes ∧
      tx.published = tx'.published := by
  obtain ⟨_, hn⟩ := Exec.exists_eq_ok (do
    let n ← Exec.run Node.step (Node.new Levels.small 2 none 100) depositOps
    let tx ← unwrap n.emitted[1]?
    let tx' ← unwrap n.emitted[2]?
    let e ← encodeAll [tx] (TxDataEncoder.new 2 1 2)
    let e' ← encodeAll [tx'] (TxDataEncoder.new 2 1 2)
    assert (e.finishWithRaw.1.2 = e'.finishWithRaw.1.2) "the same record") (by decide +kernel)
  simp only [Exec.bind_eq_ok_iff, Exec.unwrap_eq_ok_iff, Exec.assert_eq_ok_iff,
    encodeAll_singleton] at hn
  obtain ⟨n, hrun, tx, htx, tx', htx', e, he, e', he', hbytes⟩ := hn
  have hops : ∀ op ∈ depositOps, op.Typed := by decide
  have hemitted : ∀ tx ∈ n.emitted, ∃ lv, tx.EmittedBy lv Op.Typed := fun tx hmem =>
    ⟨_, _, _, _, n, Exec.Reachable.init.run (fun op hop _ => hops op hop) hrun, hmem⟩
  have hrec : tx.HasRecord (TxDataEncoder.new 2 1 2) e.finishWithRaw.1.2 := ⟨e, he, rfl⟩
  have hrec' : tx'.HasRecord (TxDataEncoder.new 2 1 2) e.finishWithRaw.1.2 := ⟨e', he', hbytes.symm⟩
  have := FluidexCommon.sample_documented
  exact ⟨n, tx, tx', _, hrun, htx, htx', hrec, hrec',
    published_eq_of_hasRecord 2 1 2 (hemitted tx (List.mem_of_getElem? htx))
      (hemitted tx' (List.mem_of_getElem? htx')) hrec hrec'⟩

end Rollup
