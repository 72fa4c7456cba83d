import Rollup.Encode.Typed
import Rollup.Publishing
import Rollup.Settlement

/-!
# The two encoders

The encoder of the transactions and that of the raw transactions write the same
fields. They differ on the heading of a trade: for the former an order is filled when
the side it is on is, and no order has to be; for the latter it is when one of its
amounts is all there is, and one order must be (`encoders_agree_iff`).
-/

namespace Rollup

/-- The transactions that are encoded, a trade with the positions of its orders. -/
inductive PubdataTx where
  | updateKey (tx : UpdateKeyTx)
  | deposit (tx : DepositTx)
  | transfer (tx : TransferTx)
  | withdraw (tx : WithdrawTx)
  | fullSpotTrade (tx : FullSpotTradeTx) (order1Pos order2Pos : ℕ)

section Agreement

open TxDataEncoder

variable [FluidexCommon] {lv : Levels} {e e' : TxDataEncoder} {l : List Bool}

/-- The encoder that belongs to the type of the transaction. -/
def PubdataTx.encodePubdata [FromBigint] : PubdataTx → Encoding Unit
  | .updateKey tx => tx.encodePubdata
  | .deposit tx => tx.encodePubdata
  | .transfer tx => tx.encodePubdata
  | .withdraw tx => tx.encodePubdata
  | .fullSpotTrade tx order1Pos order2Pos => tx.encodePubdata order1Pos order2Pos

/-- The transaction that is encoded for an operation from `s` to `s'`. A trade comes with
    its orders after it. -/
inductive Op.EncodesAs (s s' : GlobalState lv) : Op → PubdataTx → Prop
  | keyUpdate {tx : UpdateKeyTx} {offset : Option ℤ} :
      EncodesAs s s' (.keyUpdate tx offset) (.updateKey tx)
  | deposit {tx : DepositTx} {offset : Option ℤ} : tx.l2key = none →
      EncodesAs s s' (.deposit tx offset) (.deposit tx)
  | transfer {schedule : Shuffle Task} {tx : TransferTx} {offset : Option ℤ} : tx.l2key = none →
      EncodesAs s s' (.transfer schedule tx offset) (.transfer tx)
  | withdraw {tx : WithdrawTx} {offset : Option ℤ} :
      EncodesAs s s' (.withdraw tx offset) (.withdraw tx)
  | fullSpotTrade {schedule : Shuffle Task} {tx : FullSpotTradeTx} {offset : Option ℤ}
      {order1 order2 : Order} {pos1 pos2 : ℕ} : tx.OrdersMatch s →
      s.takeOrder tx.makerOrder tx.trade.order1AccountId tx.trade.order1Id "order1" = .ok order1 →
      s.takeOrder tx.takerOrder tx.trade.order2AccountId tx.trade.order2Id "order2" = .ok order2 →
      s'.getOrderPosById tx.trade.order1AccountId order1.orderId = some pos1 →
      s'.getOrderPosById tx.trade.order2AccountId order2.orderId = some pos2 →
      EncodesAs s s' (.fullSpotTrade schedule tx offset)
        (.fullSpotTrade ⟨tx.trade,
          some (order1.tradeWith tx.trade.amount1to2 tx.trade.amount2to1),
          some (order2.tradeWith tx.trade.amount2to1 tx.trade.amount1to2)⟩ pos1 pos2)

/-- The encoder is at the start of a slot, and the numbers of a trade fit in its fields. -/
structure FullSpotTradeTx.Fits (tx : FullSpotTradeTx) (order1Pos order2Pos : ℕ) (e : TxDataEncoder)
    (l : List Bool) : Prop where
  aligned : l.length % e.txEncodeBits = 0
  accounts : tx.trade.order1AccountId < 2 ^ e.accountBits ∧
    tx.trade.order2AccountId < 2 ^ e.accountBits
  tokens : tx.trade.tokenId1to2 < 2 ^ e.tokenBits ∧ tx.trade.tokenId2to1 < 2 ^ e.tokenBits
  positions : order1Pos < 2 ^ e.orderBits ∧ order2Pos < 2 ^ e.orderBits

/-- The two ways to say whether the orders are filled agree, and one of them is. -/
def FullSpotTradeTx.SameFlags (tx : FullSpotTradeTx) : Prop :=
  ∀ order1 ∈ tx.makerOrder, ∀ order2 ∈ tx.takerOrder,
    (order1.isFilled ↔ order1.Completed) ∧ (order2.isFilled ↔ order2.Completed) ∧
      (order1.Completed ∨ order2.Completed)

/-- Where the encoders agree: the trade cannot be encoded, or the flags are the same. -/
def PubdataTx.Agreed (e : TxDataEncoder) (l : List Bool) : PubdataTx → Prop
  | .fullSpotTrade tx order1Pos order2Pos => tx.Fits order1Pos order2Pos e l → tx.SameFlags
  | _ => True

/-! ## One heading -/

/-- A heading, fields and the padding. -/
def encodeRecord (h : ℕ) (x : Encoding Unit) : Encoding Unit := do
  encodeHeading h
  x
  encodePadding

theorem leads_encodeRecord (he : e.Sized) {raw : RawTx} {x : Encoding Unit} {h : ℕ} (hh : h < 8)
    (hx : x.WritesFields e (raw.fields e)) :
    (encodeRecord h x).Leads (e.holding l) e' ↔ Recorded e l h (raw.fields e) e' :=
  leads_record hh hx (raw.recordBits_le he) l

/-- Writing the heading and the fields of a raw transaction is encoding it. -/
theorem leads_of_heading (he : e.Sized) {raw : RawTx} (htype : raw.txType ≠ .placeOrder)
    {x : Encoding Unit} {h : ℕ} (hh : raw.heading = some h) (hlt : h < 8)
    (hx : x.WritesFields e (raw.fields e)) : (encodeRecord h x).Leads (e.holding l) e' ↔
      (encodeRawtxToPubdata raw).Leads (e.holding l) e' := by
  rw [leads_encodeRecord he hlt hx, encodeRawtxToPubdata_leads_iff he htype, hh]
  simp only [Option.some.injEq, exists_eq_left']

/-- The accounts, the token and the amount of a transaction. -/
def encodeCommon (accountId1 accountId2 tokenId : ℕ) (amount : U128) : Encoding Unit := do
  encodeAccount accountId1
  encodeAccount accountId2
  encodeToken tokenId
  encodeAmount amount

/-- The account and the key of an update. -/
def encodeKey (accountId : ℕ) (sign ay : Fr) : Encoding Unit := do
  encodeAccount accountId
  encodeFr sign 1
  encodeFr ay 254

variable [FluidexCommon.Documented]

theorem writesFields_encodeCommon {accountId1 accountId2 tokenId : ℕ} {amount : U128}
    (h1 : accountId1 < 2 ^ 32) (h2 : accountId2 < 2 ^ 32) (ht : tokenId < 2 ^ 32) :
    (encodeCommon accountId1 accountId2 tokenId amount).WritesFields e
      [⟨accountId1, e.accountBits, false⟩, ⟨accountId2, e.accountBits, false⟩,
        ⟨tokenId, e.tokenBits, false⟩, ⟨amount.toFr, 128, false⟩] :=
  (writesField_encodeAccount h1).cons ((writesField_encodeAccount h2).cons
    ((writesField_encodeToken ht).cons (writesField_encodeAmount amount).single))

theorem writesFields_encodeKey {accountId : ℕ} (h : accountId < 2 ^ 32) (sign ay : Fr) :
    (encodeKey accountId sign ay).WritesFields e
      [⟨accountId, e.accountBits, false⟩, ⟨sign, 1, false⟩, ⟨ay, 254, false⟩] :=
  (writesField_encodeAccount h).cons
    ((writesField_encodeFr sign 1).cons (writesField_encodeFr ay 254).single)

variable [FromBigint] {s s' : GlobalState lv} {L : Ledger lv}

/-- Without a trade, the encoders agree. -/
theorem leads_iff_of_emits (he : e.Sized) {op : Op} {raw : RawTx} {t : PubdataTx}
    (h : op.Emits s L raw) (htokens : ∀ token ∈ op.tokens, token < 2 ^ 32)
    (ht : op.EncodesAs s s' t) (hne : ∀ tx pos1 pos2, t ≠ .fullSpotTrade tx pos1 pos2) :
    t.encodePubdata.Leads (e.holding l) e' ↔ (encodeRawtxToPubdata raw).Leads (e.holding l) e' := by
  have hnot := h.txType_ne
  have haccount {a : ℕ} (ha : a < 2 ^ lv.accountLevels) : a < 2 ^ 32 := Levels.account_lt_u32 ha
  -- the operation is encoded as the record of its raw transaction
  cases ht with
  | @keyUpdate tx offset =>
    cases h with
    | keyUpdate hof ha hpayload =>
      have heq : tx.encodePubdata = encodeRecord 1 (encodeKey tx.accountId tx.l2key.sign tx.l2key.ay) := by
        simp only [UpdateKeyTx.encodePubdata, encodeRecord, encodeKey, bind_assoc]
      rw [PubdataTx.encodePubdata, heq]
      refine leads_of_heading he hnot ?_ (by decide) ?_
      · rw [RawTx.heading, hof.1, hpayload]
        exact if_pos Fr.one_ne_zero
      · rw [RawTx.fields, hof.1, hpayload]
        exact writesFields_encodeKey (haccount ha) _ _
    | nop hop => rcases hop with hop | hop <;> cases hop
  | @deposit tx offset hkey =>
    cases h with
    | deposit hof ha hpayload =>
      have heq : tx.encodePubdata = encodeRecord 0
          (encodeCommon tx.accountId tx.accountId tx.tokenId tx.amount) := by
        rw [DepositTx.encodePubdata, assert, Exec.assert_of hkey]
        simp only [encodeRecord, encodeCommon, bind_assoc]
        rfl
      have hold : raw.payload .dstIsNew = 0 := by
        rw [hpayload, depositPayload, hkey]
        rfl
      rw [PubdataTx.encodePubdata, heq]
      refine leads_of_heading he hnot ?_ (by decide) ?_
      · rw [RawTx.heading, hof.1]
        exact if_neg (not_not.2 hold)
      · rw [RawTx.fields, hof.1]
        dsimp only
        rw [if_neg (not_not.2 hold), hpayload]
        exact writesFields_encodeCommon (haccount ha) (haccount ha) (htokens _ List.mem_cons_self)
    | nop hop => rcases hop with hop | hop <;> cases hop
  | @transfer schedule tx offset hkey =>
    cases h with
    | transfer hof hfrom hto hpayload =>
      have heq : tx.encodePubdata = encodeRecord 0
          (encodeCommon tx.fromId tx.toId tx.tokenId tx.amount) := by
        simp only [TransferTx.encodePubdata, encodeRecord, encodeCommon, bind_assoc]
      have hold : raw.payload .dstIsNew = 0 := by
        rw [hpayload, transferPayload, hkey]
        rfl
      rw [PubdataTx.encodePubdata, heq]
      refine leads_of_heading he hnot ?_ (by decide) ?_
      · rw [RawTx.heading, hof.1]
        exact if_pos hold
      · rw [RawTx.fields, hof.1, hpayload]
        exact writesFields_encodeCommon (haccount hfrom) (haccount hto)
          (htokens _ List.mem_cons_self)
    | nop hop => rcases hop with hop | hop <;> cases hop
  | @withdraw tx offset =>
    cases h with
    | withdraw hof ha hpayload =>
      have heq : tx.encodePubdata = encodeRecord 4
          (encodeCommon tx.accountId tx.accountId tx.tokenId tx.amount) := by
        simp only [WithdrawTx.encodePubdata, encodeRecord, encodeCommon, bind_assoc]
      rw [PubdataTx.encodePubdata, heq]
      refine leads_of_heading he hnot ?_ (by decide) ?_
      · rw [RawTx.heading, hof.1]
      · rw [RawTx.fields, hof.1, hpayload]
        exact writesFields_encodeCommon (haccount ha) (haccount ha) (htokens _ List.mem_cons_self)
    | nop hop => rcases hop with hop | hop <;> cases hop
  | fullSpotTrade _ _ _ _ _ => exact absurd rfl (hne _ _ _)

/-! ## Two headings -/

omit [FromBigint] [FluidexCommon.Documented] in
/-- The heading of a record is read back. -/
theorem record_inj (he : e.Sized) {raw : RawTx} {h h' : ℕ} (hl : l.length % e.txEncodeBits = 0)
    (hh : h < 8) (hh' : h' < 8) (heq : e.holding (l ++ e.record h (raw.fields e)) =
      e.holding (l ++ e.record h' (raw.fields e))) : h = h' := by
  have hmod (k : ℕ) : (l ++ e.record k (raw.fields e)).length % 8 = 0 := by
    have hdvd : 8 ∣ e.txEncodeBits := Nat.dvd_of_mod_eq_zero he.txEncodeBits_mod
    rw [List.length_append, length_record (raw.recordBits_le he)]
    exact Nat.mod_eq_zero_of_dvd ((hdvd.trans (Nat.dvd_of_mod_eq_zero hl)).add hdvd)
  have hbits := congrArg (fun e => e.ctx.sealBuf.flatMap BitEncodeContext.byteBits) heq
  dsimp only [TxDataEncoder.holding] at hbits
  rw [BitEncodeContext.flatMap_byteBits_sealBuf (hmod h),
    BitEncodeContext.flatMap_byteBits_sealBuf (hmod h'), List.append_cancel_left_eq,
    TxDataEncoder.record, TxDataEncoder.record, List.append_assoc, List.append_assoc] at hbits
  exact Bits.ofNat_inj hh hh'
    (List.append_inj hbits (by rw [Bits.length_ofNat, Bits.length_ofNat])).1

/-- The fields of a trade. -/
def encodeTrade (t : SpotTradeTx) (order1 order2 : Order) (order1Pos order2Pos : ℕ) :
    Encoding Unit := do
  encodeAccount t.order1AccountId
  encodeAccount t.order2AccountId
  encodeToken t.tokenId1to2
  encodeToken t.tokenId2to1
  encodeFrCompressed order1.totalSell
  encodeFrCompressed order1.totalBuy
  encodeOrder order1Pos
  encodeOrderId order1.orderId
  encodeFrCompressed order2.totalSell
  encodeFrCompressed order2.totalBuy
  encodeOrder order2Pos
  encodeOrderId order2.orderId

omit [FluidexCommon.Documented] in
theorem encodePubdata_fullSpotTrade (t : SpotTradeTx) (order1 order2 : Order) (pos1 pos2 : ℕ) :
    (PubdataTx.fullSpotTrade ⟨t, some order1, some order2⟩ pos1 pos2).encodePubdata =
      encodeRecord (filledHeading (decide order1.isFilled) (decide order2.isFilled))
        (encodeTrade t order1 order2 pos1 pos2) := by
  simp only [encodeRecord, encodeTrade, bind_assoc, filledHeading, decide_eq_true_eq]
  rfl

/-- The numbers of a trade that are `u32`s. -/
structure SpotTradeTx.Typed (t : SpotTradeTx) (order1 order2 : Order) (pos1 pos2 : ℕ) : Prop where
  accounts : t.order1AccountId < 2 ^ 32 ∧ t.order2AccountId < 2 ^ 32
  tokens : t.tokenId1to2 < 2 ^ 32 ∧ t.tokenId2to1 < 2 ^ 32
  positions : pos1 < 2 ^ 32 ∧ pos2 < 2 ^ 32
  orders : order1.Typed ∧ order2.Typed

/-- The fields of a trade, with the compressed totals of its orders. -/
def SpotTradeTx.fields (e : TxDataEncoder) (t : SpotTradeTx) (order1 order2 : Order)
    (amounts1 amounts2 : Fr × Fr) (pos1 pos2 : ℕ) : List FrField :=
  [⟨t.order1AccountId, e.accountBits, false⟩, ⟨t.order2AccountId, e.accountBits, false⟩,
    ⟨t.tokenId1to2, e.tokenBits, false⟩, ⟨t.tokenId2to1, e.tokenBits, false⟩,
    ⟨amounts1.1, 40, false⟩, ⟨amounts1.2, 40, false⟩, ⟨pos1, e.orderBits, false⟩,
    ⟨order1.orderId, 32, true⟩, ⟨amounts2.1, 40, false⟩, ⟨amounts2.2, 40, false⟩,
    ⟨pos2, e.orderBits, false⟩, ⟨order2.orderId, 32, true⟩]

section Trade

variable {t : SpotTradeTx} {order1 order2 : Order} {amounts1 amounts2 : Fr × Fr} {pos1 pos2 : ℕ}
  (ht : t.Typed order1 order2 pos1 pos2) (h1 : compressTotals order1 = .ok amounts1)
  (h2 : compressTotals order2 = .ok amounts2)
include ht h1 h2

theorem writesFields_encodeTrade (hfloat : FromBigint.Compresses) :
    (encodeTrade t order1 order2 pos1 pos2).WritesFields e
      (t.fields e order1 order2 amounts1 amounts2 pos1 pos2) := by
  obtain ⟨hsell1, hbuy1⟩ := compressTotals_eq_ok_iff.1 h1
  obtain ⟨hsell2, hbuy2⟩ := compressTotals_eq_ok_iff.1 h2
  exact (writesField_encodeAccount ht.accounts.1).cons <|
    (writesField_encodeAccount ht.accounts.2).cons <|
    (writesField_encodeToken ht.tokens.1).cons <| (writesField_encodeToken ht.tokens.2).cons <|
    (writesField_encodeFrCompressed hfloat hsell1).cons <|
    (writesField_encodeFrCompressed hfloat hbuy1).cons <|
    (writesField_encodeOrder ht.positions.1).cons <| (writesField_encodeOrderId ht.orders.1).cons <|
    (writesField_encodeFrCompressed hfloat hsell2).cons <|
    (writesField_encodeFrCompressed hfloat hbuy2).cons <|
    (writesField_encodeOrder ht.positions.2).cons (writesField_encodeOrderId ht.orders.2).single

omit [FromBigint] in
/-- Which numbers of a trade may not fit. -/
theorem SpotTradeTx.fields_fit_iff :
    (∀ f ∈ t.fields e order1 order2 amounts1 amounts2 pos1 pos2, f.Fits) ↔
      (t.order1AccountId < 2 ^ e.accountBits ∧ t.order2AccountId < 2 ^ e.accountBits) ∧
      (t.tokenId1to2 < 2 ^ e.tokenBits ∧ t.tokenId2to1 < 2 ^ e.tokenBits) ∧
      pos1 < 2 ^ e.orderBits ∧ pos2 < 2 ^ e.orderBits := by
  obtain ⟨⟨hsell1, -⟩, hbuy1, -⟩ := compressTotals_spec h1
  obtain ⟨⟨hsell2, -⟩, hbuy2, -⟩ := compressTotals_spec h2
  have hu32 {n w : ℕ} (hn : n < 2 ^ 32) : FrField.Fits ⟨n, w, false⟩ ↔ n < 2 ^ w := by
    have hval := Fr.val_natCast hn (by decide)
    rw [FrField.fits_iff (.inl (hval.trans_lt (hn.trans (by decide)))), hval,
      or_iff_right Bool.false_ne_true]
  have hid {n : ℕ} (hn : n < 2 ^ 32) : FrField.Fits ⟨n, 32, true⟩ :=
    FrField.fits_of_lt ((Fr.val_natCast hn (by decide)).trans_lt hn)
  have hamount {c : Fr} (hc : c.val < 2 ^ 40) : FrField.Fits ⟨c, 40, false⟩ := FrField.fits_of_lt hc
  simp only [SpotTradeTx.fields, List.forall_mem_cons, hu32 ht.accounts.1, hu32 ht.accounts.2,
    hu32 ht.tokens.1, hu32 ht.tokens.2, hu32 ht.positions.1, hu32 ht.positions.2, hid ht.orders.1,
    hid ht.orders.2, hamount hsell1, hamount hbuy1, hamount hsell2, hamount hbuy2, true_and,
    List.not_mem_nil, false_imp_iff, implies_true, and_true, and_assoc]

variable (hfloat : FromBigint.Compresses) (he : e.Sized) {raw : RawTx}
  (htype : raw.txType = .spotTrade) (horders : raw.HasOrders order1 order2)
  (hfields : raw.fields e = t.fields e order1 order2 amounts1 amounts2 pos1 pos2)
include hfloat he htype horders hfields

/-- Both encoders of a trade write its fields, after headings of their own. -/
theorem leads_iff_of_trade :
    ((PubdataTx.fullSpotTrade ⟨t, some order1, some order2⟩ pos1 pos2).encodePubdata.Leads
        (e.holding l) e' ↔
      Recorded e l (filledHeading (decide order1.isFilled) (decide order2.isFilled))
        (raw.fields e) e') ∧
    ((encodeRawtxToPubdata raw).Leads (e.holding l) e' ↔
      (order1.Completed ∨ order2.Completed) ∧
        Recorded e l (filledHeading (decide order1.Completed) (decide order2.Completed))
          (raw.fields e) e') := by
  constructor
  · have hwrites := writesFields_encodeTrade (e := e) ht h1 h2 hfloat
    rw [encodePubdata_fullSpotTrade, leads_encodeRecord he (filledHeading_lt _ _) (hfields ▸ hwrites)]
  · have hheading : raw.heading = tradeHeading raw.payload := by rw [RawTx.heading, htype]
    rw [encodeRawtxToPubdata_leads_iff he (by rw [htype]; decide), hheading]
    simp only [tradeHeading_eq_some_iff_completed horders, and_assoc, exists_and_left,
      exists_eq_left']

/-- The encoders of a trade agree if the trade cannot be encoded, or the headings are the same. -/
theorem agree_iff_of_trade :
    (∀ e', (PubdataTx.fullSpotTrade ⟨t, some order1, some order2⟩ pos1 pos2).encodePubdata.Leads
        (e.holding l) e' ↔ (encodeRawtxToPubdata raw).Leads (e.holding l) e') ↔
      PubdataTx.Agreed e l (.fullSpotTrade ⟨t, some order1, some order2⟩ pos1 pos2) := by
  have hfit := SpotTradeTx.fields_fit_iff (e := e) ht h1 h2
  rw [← hfields] at hfit
  simp only [(leads_iff_of_trade ht h1 h2 hfloat he htype horders hfields).1,
    (leads_iff_of_trade ht h1 h2 hfloat he htype horders hfields).2]
  constructor
  · rintro hagree ⟨haligned, haccounts, htokens, hpositions⟩ _ ⟨⟩ _ ⟨⟩
    have hfits := hfit.2 ⟨haccounts, htokens, hpositions⟩
    -- What the first encoder writes is written by the other one.
    obtain ⟨hcompleted, -, -, heq⟩ := (hagree _).1 ⟨haligned, hfits, rfl⟩
    have hheading := record_inj he haligned (filledHeading_lt _ _) (filledHeading_lt _ _) heq
    obtain ⟨hflag1, hflag2⟩ := filledHeading_inj hheading
    exact ⟨decide_eq_decide.1 hflag1, decide_eq_decide.1 hflag2, hcompleted⟩
  · intro hsame e'
    have hflags (hr : (∀ f ∈ raw.fields e, f.Fits) ∧ l.length % e.txEncodeBits = 0) :=
      have hfits := hfit.1 hr.1
      hsame ⟨hr.2, hfits.1, hfits.2.1, hfits.2.2⟩ order1 rfl order2 rfl
    constructor
    · intro hr
      obtain ⟨hflag1, hflag2, hcompleted⟩ := hflags ⟨hr.fits, hr.aligned⟩
      rw [decide_eq_decide.2 hflag1, decide_eq_decide.2 hflag2] at hr
      exact ⟨hcompleted, hr⟩
    · rintro ⟨-, hr⟩
      obtain ⟨hflag1, hflag2, -⟩ := hflags ⟨hr.fits, hr.aligned⟩
      rwa [decide_eq_decide.2 hflag1, decide_eq_decide.2 hflag2]

end Trade

section Accepted

variable {op : Op} {tx : FullSpotTradeTx} {raw : RawTx} {T : Trade lv} {e1' e2' : Entry lv}

omit [FluidexCommon.Documented] [FromBigint] in
/-- The fields of the raw transaction of a trade are those of the trade. -/
theorem Trade.Describes.fields_eq (h : T.Describes tx.trade s s' e1' e2' raw)
    (htype : raw.txType = .spotTrade) (hT : T.Accepted s L tx) (hmatch : tx.OrdersMatch s) :
    ∃ amounts1 amounts2, compressTotals (T.new1 tx.trade) = .ok amounts1 ∧
      compressTotals (T.new2 tx.trade) = .ok amounts2 ∧
      raw.fields e = tx.trade.fields e (T.new1 tx.trade) (T.new2 tx.trade) amounts1 amounts2 T.pos1
        T.pos2 := by
  obtain ⟨amounts1, amounts2, hamounts1, hamounts2, hpayload⟩ := h.payload
  have htoken1 := (hmatch.1 T.order1 hT.taken1).1
  have htoken2 := (hmatch.2 T.order2 hT.taken2).1
  refine ⟨amounts1, amounts2, hamounts1, hamounts2, ?_⟩
  rw [RawTx.fields, htype, hpayload, SpotTradeTx.fields, ← htoken1, ← htoken2]
  rfl

omit [FluidexCommon.Documented] [FromBigint] in
/-- The numbers of an accepted trade are `u32`s. -/
theorem Trade.Accepted.typed (hT : T.Accepted s L tx) (h : Shows s L) (hs : s.OrdersTyped)
    (hplaced : ∀ a e, L a = some e → e.Placed) {schedule : Shuffle Task} {offset : Option ℤ}
    (htyped : (Op.fullSpotTrade schedule tx offset).Typed)
    (htokens : ∀ token ∈ (Op.fullSpotTrade schedule tx offset).tokens, token < 2 ^ 32)
    (ht : L.Traded T tx.trade e1' e2' s') :
    tx.trade.Typed (T.new1 tx.trade) (T.new2 tx.trade) T.pos1 T.pos2 := by
  have hlevels {k m : ℕ} (hm : m < 2 ^ k) (hk : k < 32) : m < 2 ^ 32 :=
    hm.trans (Nat.pow_lt_pow_right one_lt_two hk)
  obtain ⟨_, _, hplace1, -, -⟩ := ht.trades1
  obtain ⟨_, _, hplace2, -, -⟩ := ht.trades2
  -- A trade does not change the ids of its orders.
  have hid1 : T.order1.Typed := hs.takes h.toHolds htyped.1 hT.takes1
  have hid2 : T.order2.Typed := hs.takes h.toHolds htyped.2 hT.takes2
  exact
    { accounts := ⟨hlevels (h.lt hT.entry1) lv.account_lt, hlevels (h.lt hT.entry2) lv.account_lt⟩
      tokens := ⟨htokens _ List.mem_cons_self,
        htokens _ (List.mem_cons_of_mem _ List.mem_cons_self)⟩
      positions := ⟨hlevels ((hplaced _ _ hT.entry1).place_lt hplace1) lv.order_lt,
        hlevels ((hplaced _ _ hT.entry2).place_lt hplace2) lv.order_lt⟩
      orders := ⟨hid1, hid2⟩ }

end Accepted

/-- For what is accepted in a reachable state, the encoders fail together or write the same
    bits, unless the transaction is a trade whose numbers fit and whose flags differ. -/
theorem encoders_agree_iff (hfloat : FromBigint.Compresses) {n : Node lv}
    {nTx persistEveryNBlock : ℕ} {blockOffset : Option ℕ}
    (hn : Exec.Reachable Node.step (fun _ op => op.Typed)
      (Node.new lv nTx blockOffset persistEveryNBlock) n)
    {op : Op} (htyped : op.Typed) (htokens : ∀ token ∈ op.tokens, token < 2 ^ 32) {raw : RawTx}
    (hr : n.state.apply op = .ok (some raw, s')) {t : PubdataTx} (ht : op.EncodesAs n.state s' t)
    (he : e.Sized) (l : List Bool) :
    (∀ e', t.encodePubdata.Leads (e.holding l) e' ↔
      (encodeRawtxToPubdata raw).Leads (e.holding l) e') ↔ t.Agreed e l := by
  obtain ⟨L, h, hplaced⟩ := Node.reachable_ledger (P := Entry.Placed) (.create lv)
    (fun _ _ _ _ _ he h => he.change h) hn
  have hs := Node.ordersTyped (fun _ _ h => h) hn
  have hemits := apply_emits h hr
  cases t with
  | updateKey _ | deposit _ | transfer _ | withdraw _ =>
    exact iff_of_true (fun e' => leads_iff_of_emits he hemits htokens ht fun _ _ _ h => by cases h)
      trivial
  | fullSpotTrade fullTx pos1 pos2 =>
    cases ht with
    | @fullSpotTrade schedule tx offset order1 order2 _ _ hmatch htake1 htake2 hpos1 hpos2 =>
    generalize hraw : some raw = r at hr
    cases GlobalState.applied hr with
    | fullSpotTrade hr =>
    obtain rfl := Option.some.inj hraw
    have htype := (fullSpotTrade_raw hr).1.1
    obtain ⟨T, e1', e2', hT, h1, h2, h', hdesc⟩ := fullSpotTrade_spec h hr
    obtain rfl := Except.ok.inj (hT.taken1.symm.trans htake1)
    obtain rfl := Except.ok.inj (hT.taken2.symm.trans htake2)
    -- The positions are those of the trade.
    have hfound1 := (h1.found h' (Ledger.Traded.entry1 hT)).1
    have hfound2 := (h2.found h' (Ledger.set_self _ _ _)).1
    obtain rfl := Option.some.inj (hfound1.symm.trans hpos1)
    obtain rfl := Option.some.inj (hfound2.symm.trans hpos2)
    obtain ⟨amounts1, amounts2, hamounts1, hamounts2, hfields⟩ :=
      hdesc.fields_eq (e := e) htype hT hmatch
    exact agree_iff_of_trade (hT.typed h hs hplaced htyped htokens ⟨h1, h2, h'⟩) hamounts1 hamounts2
      hfloat he htype hdesc.hasOrders hfields

end Agreement

/-- Five units are sold for six, out of `total`; the other order is completed. -/
def soldTrade (total : Fr) : FullSpotTradeTx :=
  ⟨⟨0, 1, 1, 0, 5, 6, 3, 4⟩, some { makerOrder with totalSell := total, totalBuy := 12 },
    some { takerOrder with totalSell := 12 }⟩

/-- The transaction encoded for it. -/
def soldPubdataTx (total : Fr) : PubdataTx :=
  .fullSpotTrade ⟨(soldTrade total).trade,
    some ({ makerOrder with totalSell := total, totalBuy := 12 }.tradeWith 5 6),
    some ({ takerOrder with totalSell := 12 }.tradeWith 6 5)⟩ 0 0

attribute [local instance] FluidexCommon.sample FromBigint.sample in
theorem encoders_agree_iff_soldTrade : ∃ n raw s',
    Exec.run Node.step (Node.new Levels.small 2 none 9) traders = .ok n ∧
      n.state.apply (.fullSpotTrade .id (soldTrade 10) none) = .ok (some raw, s') ∧
      ∀ e', (soldPubdataTx 10).encodePubdata.Leads (TxDataEncoder.new 2 1 2) e' ↔
        (encodeRawtxToPubdata raw).Leads (TxDataEncoder.new 2 1 2) e' := by
  obtain ⟨_, hn⟩ := Exec.exists_eq_ok (do
    let n ← Exec.run Node.step (Node.new Levels.small 2 none 9) traders
    let (raw, s') ← n.state.apply (.fullSpotTrade .id (soldTrade 10) none)
    let raw ← unwrap raw
    assert (s'.getOrderPosById 0 3 = some 0 ∧ s'.getOrderPosById 1 4 = some 0) "positions"
    assert ((soldTrade 10).OrdersMatch n.state) "tokens"
    let o1 ← n.state.takeOrder (soldTrade 10).makerOrder 0 3 "order1"
    let o2 ← n.state.takeOrder (soldTrade 10).takerOrder 1 4 "order2"
    assert ((soldTrade 10).makerOrder = some o1 ∧ (soldTrade 10).takerOrder = some o2) "orders")
    (by decide +kernel)
  simp only [Exec.bind_eq_ok_iff, Exec.unwrap_eq_ok_iff, Exec.assert_eq_ok_iff, Prod.exists] at hn
  obtain ⟨n, hrun, _, s', hr, raw, rfl, _, ⟨hpos1, hpos2⟩, _, hmatch, o1, htake1, o2, htake2,
    ho1, ho2⟩ := hn
  obtain rfl := Option.some.inj ho1
  obtain rfl := Option.some.inj ho2
  have htyped : ∀ op ∈ traders, op.Typed := by decide
  have := FluidexCommon.sample_documented
  exact ⟨n, raw, s', hrun, hr, (encoders_agree_iff FromBigint.sample_compresses
    (Exec.Reachable.init.run (fun op hop _ => htyped op hop) hrun) (by decide) (by decide) hr
    (.fullSpotTrade hmatch htake1 htake2 hpos1 hpos2) (TxDataEncoder.sized_new 2 1 2) []).2
    fun _ => by rintro _ ⟨⟩ _ ⟨⟩; decide⟩

attribute [local instance] FluidexCommon.sample FromBigint.sample in
/-- If there are only five units to sell, both encoders write something, but not the same: the
    first order, which is meant to buy, is filled for the second encoder only. -/
theorem encoders_disagree_soldTrade : ∃ n raw s' e₁ e₂,
    Exec.Reachable Node.step (fun _ op => op.Typed) (Node.new Levels.small 2 none 9) n ∧
      n.state.apply (.fullSpotTrade .id (soldTrade 5) none) = .ok (some raw, s') ∧
      (Op.fullSpotTrade .id (soldTrade 5) none).EncodesAs n.state s' (soldPubdataTx 5) ∧
      (soldPubdataTx 5).encodePubdata.Leads (TxDataEncoder.new 2 1 2) e₁ ∧
      (encodeRawtxToPubdata raw).Leads (TxDataEncoder.new 2 1 2) e₂ ∧ e₁ ≠ e₂ := by
  obtain ⟨_, hn⟩ := Exec.exists_eq_ok (do
    let n ← Exec.run Node.step (Node.new Levels.small 2 none 9) traders
    let r ← n.state.apply (.fullSpotTrade .id (soldTrade 5) none)
    let raw ← unwrap r.1
    assert (r.2.getOrderPosById 0 3 = some 0 ∧ r.2.getOrderPosById 1 4 = some 0) "positions"
    assert ((soldTrade 5).OrdersMatch n.state) "tokens"
    let o1 ← n.state.takeOrder (soldTrade 5).makerOrder 0 3 "order1"
    let o2 ← n.state.takeOrder (soldTrade 5).takerOrder 1 4 "order2"
    assert ((soldTrade 5).makerOrder = some o1 ∧ (soldTrade 5).takerOrder = some o2) "orders"
    let r₁ ← (soldPubdataTx 5).encodePubdata.run.run (TxDataEncoder.new 2 1 2)
    let r₂ ← (encodeRawtxToPubdata raw).run.run (TxDataEncoder.new 2 1 2)
    assert (r₁.1 = .ok () ∧ r₂.1 = .ok ()) "encoded"
    assert (r₁.2.finishWithRaw.1.2 ≠ r₂.2.finishWithRaw.1.2) "different") (by decide +kernel)
  simp only [Exec.bind_eq_ok_iff, Exec.unwrap_eq_ok_iff, Exec.assert_eq_ok_iff, Prod.exists] at hn
  obtain ⟨n, hrun, _, s', hr, raw, rfl, _, ⟨hpos1, hpos2⟩, _, hmatch, o1, htake1, o2, htake2, _,
    ⟨ho1, ho2⟩, _, e₁, h₁, _, e₂, h₂, _, ⟨rfl, rfl⟩, hne⟩ := hn
  obtain rfl := Option.some.inj ho1
  obtain rfl := Option.some.inj ho2
  have htyped : ∀ op ∈ traders, op.Typed := by decide
  exact ⟨n, raw, s', e₁, e₂, Exec.Reachable.init.run (fun op hop _ => htyped op hop) hrun, hr,
    .fullSpotTrade hmatch htake1 htake2 hpos1 hpos2, h₁, h₂, fun heq => hne (heq ▸ rfl)⟩

end Rollup
