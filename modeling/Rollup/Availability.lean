import Rollup.Binding
import Rollup.Books
import Rollup.Publishing

/-!
# What the public data says

Whoever has the public data of the blocks can do the bookings of all transactions but the trades,
of which the amounts are not published (`Published.bookings`). If there are no trades, the books
after these bookings are those of the manager (`Node.exists_replays`), whatever it has created,
refused or filled its blocks with: the encoder refuses the transactions that publish less than
they book, i.e., those that bring a key and move an amount.

So two managers that have published the same data have the same accounts, and the same root
(`Node.same_of_publicData`), even if their transactions differ in what is not published.
-/

namespace Rollup

section Availability

variable [FluidexCommon] {lv : Levels} {s s' : GlobalState lv} {L : Ledger lv} {B B' : Books}
  {n n' : Node lv} {tx : RawTx}

/-! ## What is booked -/

/-- What a reader of the public data books. A nop is published as a common transaction that
    moves nothing. -/
def Published.bookings : Published → List Books.Booking
  | .common a b t amount =>
    if a ≠ b then [.transfer a.val b.val t.val amount.val]
    else if amount ≠ 0 then [.deposit a.val t.val amount.val] else []
  | .withdraw a _ t amount => [.withdraw a.val t.val amount.val]
  | .keyUpdate a sign ay => [.register a.val (sign, ay)]
  | .spotTrade _ _ => []

/-- What a reader books for the transactions, one after the other. -/
def publishedBookings (txs : List RawTx) : List Books.Booking :=
  txs.flatMap fun tx => tx.published.bookings

/-- Whatever the bookings `ks` do, the bookings `ks'` do as well. -/
def Books.Does (ks' ks : List Booking) : Prop :=
  ∀ B B' : Books, B.bookAll ks = some B' → B.bookAll ks' = some B'

/-- No order is stored, and none is traded. -/
def Op.WithoutOrders : Op → Prop
  | .setAccountOrder _ _ _ | .fullSpotTrade _ _ _ => False
  | _ => True

instance : (op : Op) → Decidable op.WithoutOrders
  | .setAccountOrder _ _ _ | .fullSpotTrade _ _ _ => .isFalse id
  | .createNewAccount _ | .setAccountL2Addr _ _ _ | .setAccountNonce _ _ | .setTokenBalance _ _ _
  | .keyUpdate _ _ | .deposit _ _ | .transfer _ _ _ | .withdraw _ _ | .cancelOrder _ _ | .nop
  | .flushWithNop | .popAllBlocks => .isTrue trivial

namespace RawTx

/-- A deposit that brings a key publishes the key. -/
theorem published_of_new (htype : tx.txType = .deposit) (hnew : tx.payload .dstIsNew ≠ 0) :
    tx.published =
      .keyUpdate (tx.payload .accountId1) (tx.payload .sign2) (tx.payload .ay2) := by
  rw [published, htype]
  exact if_pos hnew

/-- Any other deposit publishes the amount. -/
theorem published_of_old (htype : tx.txType = .deposit) (hold : tx.payload .dstIsNew = 0) :
    tx.published = .common (tx.payload .accountId1) (tx.payload .accountId2)
      (tx.payload .tokenId1) (tx.payload .amount) := by
  rw [published, htype]
  exact if_neg (not_not.2 hold)

/-- A key that comes with an amount is not published. -/
theorem amount_of_new (htype : tx.txType = .deposit) (hnew : tx.payload .dstIsNew ≠ 0)
    (hheading : tx.heading.isSome) : tx.payload .amount = 0 := by
  rw [heading, htype] at hheading
  dsimp only at hheading
  rw [if_pos hnew] at hheading
  by_contra hne
  rw [if_neg hne] at hheading
  cases hheading

/-- A transfer that can be encoded brings no key. -/
theorem old_of_transfer (htype : tx.txType = .transfer) (hheading : tx.heading.isSome) :
    tx.payload .dstIsNew = 0 := by
  rw [heading, htype] at hheading
  by_contra hne
  dsimp only at hheading
  rw [if_neg hne] at hheading
  cases hheading

end RawTx

omit [FluidexCommon] in
/-- Depositing nothing changes nothing. -/
theorem Books.book_deposit_zero {a t : ℕ} (h : B.book (.deposit a t 0) = some B') : B' = B := by
  obtain ⟨-, balances, hentries, rfl⟩ := book_eq_some_iff.1 h
  rw [Booking.entries, Bookkeeping.enterAll_cons, Bookkeeping.enter, Option.bind_some,
    Nat.add_zero, Bookkeeping.put_eq_self] at hentries
  obtain rfl := Option.some.inj hentries
  rfl

/-- What is published does the bookings, if it can be published. -/
theorem Op.Emits.does_published {op : Op} (h : op.Emits s L tx) (hop : op.Bookable s)
    (horders : op.WithoutOrders) (hheading : tx.heading.isSome) :
    Books.Does tx.published.bookings op.bookings := by
  have haccount {a : ℕ} (ha : a < 2 ^ lv.accountLevels) : ((a : ℕ) : Fr).val = a :=
    Fr.val_natCast ha (lv.account_lt.trans (by decide))
  have htoken {t : ℕ} (ht : t < 2 ^ lv.balanceLevels) : ((t : ℕ) : Fr).val = t :=
    Fr.val_natCast ht (lv.balance_lt.trans (by decide))
  have hone : (1 : Fr) ≠ 0 := by decide
  intro B B' hbook
  cases h with
  | @keyUpdate offset ktx _ hof ha hpayload =>
    have hnew : tx.payload .dstIsNew ≠ 0 := by
      rw [hpayload]
      exact hone
    have hpublished : tx.published = .keyUpdate ktx.accountId ktx.l2key.sign ktx.l2key.ay := by
      rw [RawTx.published_of_new hof.1 hnew, hpayload]
      rfl
    rw [hpublished, Published.bookings, haccount ha]
    exact hbook
  | @deposit offset dtx _ hof ha hpayload =>
    cases hkey : dtx.l2key with
    | none =>
      have hold : tx.payload .dstIsNew = 0 := by
        rw [hpayload, depositPayload, hkey]
        rfl
      have hpublished : tx.published =
          .common dtx.accountId dtx.accountId dtx.tokenId dtx.amount.toFr := by
        rw [RawTx.published_of_old hof.1 hold, hpayload]
        rfl
      rw [Op.bookings, hkey] at hbook
      rw [hpublished, Published.bookings, if_neg (not_not.2 rfl), haccount ha, htoken hop.1,
        U128.toFr_val]
      split
      · exact hbook
      · next hzero =>
        -- nothing is deposited, and nothing is read
        rw [not_not, ← ZMod.val_eq_zero, U128.toFr_val] at hzero
        obtain ⟨B₁, hdeposit, hnil⟩ := Option.bind_eq_some_iff.1 hbook
        obtain rfl := Option.some.inj hnil
        rw [hzero] at hdeposit
        rw [Books.book_deposit_zero hdeposit]
        rfl
    | some k =>
      have hnew : tx.payload .dstIsNew ≠ 0 := by
        rw [hpayload, depositPayload, hkey]
        exact hone
      have hpublished : tx.published = .keyUpdate dtx.accountId k.sign k.ay := by
        rw [RawTx.published_of_new hof.1 hnew, hpayload, depositPayload, depositPayload,
          depositPayload, hkey]
        rfl
      have hzero : dtx.amount.toNat = 0 := by
        have hamount := RawTx.amount_of_new hof.1 hnew hheading
        rw [hpayload] at hamount
        rw [← U128.toFr_val, ZMod.val_eq_zero]
        exact hamount
      rw [Op.bookings, hkey, hzero] at hbook
      obtain ⟨B₁, hregister, hrest⟩ := Option.bind_eq_some_iff.1 hbook
      obtain ⟨B₂, hdeposit, hnil⟩ := Option.bind_eq_some_iff.1 hrest
      obtain rfl := Option.some.inj hnil
      obtain rfl := Books.book_deposit_zero hdeposit
      rw [hpublished, Published.bookings, haccount ha, Books.bookAll_cons, hregister]
      rfl
  | @transfer offset schedule ttx _ hof hfrom hto hpayload =>
    have hold : ttx.l2key = none := by
      have hnew := RawTx.old_of_transfer hof.1 hheading
      rw [hpayload, transferPayload] at hnew
      cases hkey : ttx.l2key with
      | none => rfl
      | some k =>
        rw [hkey] at hnew
        exact absurd hnew hone
    have hpublished : tx.published =
        .common ttx.fromId ttx.toId ttx.tokenId ttx.amount.toFr := by
      rw [RawTx.published, hof.1, hpayload]
      rfl
    have hne : ((ttx.fromId : ℕ) : Fr) ≠ (ttx.toId : Fr) := by
      intro heq
      refine hop.2.1 ?_
      rw [← haccount hfrom, heq, haccount hto]
    rw [Op.bookings, hold] at hbook
    rw [hpublished, Published.bookings, if_pos hne, haccount hfrom, haccount hto, htoken hop.1,
      U128.toFr_val]
    exact hbook
  | @withdraw offset wtx _ hof ha hpayload =>
    have hpublished : tx.published =
        .withdraw wtx.accountId wtx.accountId wtx.tokenId wtx.amount.toFr := by
      rw [RawTx.published, hof.1, hpayload]
      rfl
    rw [hpublished, Published.bookings, haccount ha, htoken hop.1, U128.toFr_val]
    exact hbook
  | fullSpotTrade _ _ _ _ _ => exact horders.elim
  | nop hnop => rcases hnop with rfl | rfl <;> exact hbook

/-! ## Runs -/

/-- What is booked is read transaction by transaction. -/
theorem publishedBookings_append (txs txs' : List RawTx) :
    publishedBookings (txs ++ txs') = publishedBookings txs ++ publishedBookings txs' :=
  List.flatMap_append

/-- The transactions that fill a block book nothing. -/
theorem publishedBookings_nops (s : GlobalState lv) (k : ℕ) :
    publishedBookings (List.replicate k s.nopTx) = [] :=
  List.flatMap_eq_nil_iff.2 fun tx htx => by
    rw [List.eq_of_mem_replicate htx]
    rfl

namespace Node

/-- What a step publishes does what it books. -/
theorem step_published (h : Shows n.state L) {op : Op} (hop : op.Bookable n.state)
    (horders : op.WithoutOrders) (hst : n.step op = .ok n')
    (hheading : ∀ tx ∈ n'.emitted, tx.heading.isSome) : ∃ txs, n'.emitted = n.emitted ++ txs ∧
      Books.Does (publishedBookings txs) (n.state.booked op) := by
  cases step_stepped hst with
  | flush _ =>
    refine ⟨_, rfl, fun B B' hbook => ?_⟩
    rw [publishedBookings_nops]
    exact hbook
  | pop _ => exact ⟨[], (List.append_nil _).symm, fun B B' hbook => hbook⟩
  | @apply _ raw s' hr =>
    cases raw with
    | none =>
      refine ⟨[], (List.append_nil _).symm, fun B B' hbook => ?_⟩
      rw [GlobalState.booked_none hr] at hbook
      exact hbook
    | some raw =>
      refine ⟨[raw], rfl, fun B B' hbook => ?_⟩
      have hmem : raw ∈ (({ n with manager := { n.manager with state := s' } } : Node lv).emit
        (some raw)).emitted := List.mem_append_right _ List.mem_cons_self
      rw [GlobalState.booked_some hr] at hbook
      rw [publishedBookings, List.flatMap_singleton]
      exact (apply_emits h hr).does_published hop horders (hheading _ hmem) B B' hbook

/-- What a run publishes does what it books. -/
theorem run_published {ops : List Op} (h : Shows n.state L)
    (hops : Exec.Along step (fun m op => op.Bookable m.state ∧ op.WithoutOrders) n ops)
    (hrun : Exec.run step n ops = .ok n') (hheading : ∀ tx ∈ n'.emitted, tx.heading.isSome) :
    ∃ txs, n'.emitted = n.emitted ++ txs ∧
      Books.Does (publishedBookings txs) (n.bookings ops) := by
  induction ops generalizing n L with
  | nil =>
    obtain rfl := Exec.run_nil.1 hrun
    exact ⟨[], (List.append_nil _).symm, fun B B' hbook => hbook⟩
  | cons op ops ih =>
    obtain ⟨n₁, hst, hrun⟩ := Exec.run_cons.1 hrun
    obtain ⟨⟨hop, horders⟩, hops⟩ := hops
    obtain ⟨raw, hr⟩ := step_state hst
    obtain ⟨L₁, h₁⟩ := exists_shows_step ⟨L, h⟩ hst
    obtain ⟨txs', hemitted', hbooks'⟩ := ih h₁ (hops _ hst) hrun
    obtain ⟨txs, hemitted, hbooks⟩ := step_published h hop horders hst fun tx htx =>
      hheading tx (hemitted' ▸ List.mem_append_left _ htx)
    refine ⟨txs ++ txs', by rw [hemitted', hemitted, List.append_assoc], fun B B' hbook => ?_⟩
    rw [bookings, hst, Books.bookAll_append] at hbook
    obtain ⟨B₁, hfirst, hrest⟩ := Option.bind_eq_some_iff.1 hbook
    rw [publishedBookings_append, Books.bookAll_append, hbooks B B₁ hfirst]
    exact hbooks' B₁ B' hrest

end Node

/-! ## Blocks -/

/-- The block is that of `nTx` transactions, and its public data has their records. -/
structure L2Block.Publishes (e : TxDataEncoder) (nTx : ℕ) (block : L2Block) (txs : List RawTx) :
    Prop where
  records : PublicRecords e txs block.publicData
  holds : block.Holds txs
  length_eq : txs.length = nTx

/-- The blocks publish the transactions that have been emitted, up to the last ones. -/
def Node.Publishes (nTx : ℕ) (n : Node lv) : Prop := ∃ groups : List (List RawTx),
  List.Forall₂ (L2Block.Publishes (Node.encoder lv) nTx) n.blocks groups ∧
    groups.flatten ++ n.manager.bufferedTxs = n.emitted

/-- A block publishes the transactions it was forged from. -/
theorem ManagerWrapper.Encodes.publishes {e : TxDataEncoder} {m : ManagerWrapper lv}
    (hm : m.Encodes e) {i : ℕ} (hi : i + m.nTx ≤ m.bufferedTxs.length) {block : L2Block}
    {encoder : TxDataEncoder}
    (hforge : forgeWithTxs m.blockGenerateNum (m.blockTxs i) (e.holding []) =
      .ok (block, encoder)) :
    block.Publishes e m.nTx (m.blockTxs i) where
  records := by
    simp only [forgeWithTxs, Exec.bind_eq_ok_iff, Exec.unwrap_eq_ok_iff, Exec.pure_eq_ok_iff,
      Prod.mk.injEq] at hforge
    obtain ⟨e₁, hall, -, -, -, -, rfl, -⟩ := hforge
    exact (encodeAll_publicRecords hm.sized (hm.blockTxs_ne i) hall).1
  holds := (forgeWithTxs_spec hforge).2
  length_eq := by
    rw [blockTxs, List.length_take, List.length_drop]
    omega

/-- The blocks publish the transactions that leave the buffer, in order. -/
theorem ManagerWrapper.Encodes.popLoop_publishes {e : TxDataEncoder} {m m' : ManagerWrapper lv}
    (hm : m.Encodes e) {persistEveryNBlock i fuel j : ℕ} {blocks : List L2Block}
    {snapshots : List (Snapshot lv)}
    (hr : m.popLoop persistEveryNBlock i fuel = .ok ((blocks, snapshots, j), m')) :
    m'.bufferedTxs = m.bufferedTxs ∧ ∃ groups : List (List RawTx),
      List.Forall₂ (L2Block.Publishes e m.nTx) blocks groups ∧
        groups.flatten ++ m.bufferedTxs.drop j = m.bufferedTxs.drop i := by
  induction fuel generalizing m i blocks snapshots with
  | zero =>
    simp only [popLoop, Exec.pure_eq_ok_iff, Prod.mk.injEq] at hr
    obtain ⟨⟨rfl, -, rfl⟩, rfl⟩ := hr
    exact ⟨rfl, [], .nil, rfl⟩
  | succ fuel ih =>
    rw [popLoop] at hr
    split at hr
    · next hi =>
      simp only [Exec.bind_eq_ok_iff, Prod.exists, Exec.pure_eq_ok_iff, Prod.mk.injEq] at hr
      obtain ⟨block, encoder, hforge, _, -, blocks', snapshots', j', m₁, hr, ⟨rfl, -, rfl⟩, rfl⟩ :=
        hr
      rw [hm.encoder] at hforge
      obtain rfl := forgeWithTxs_encoder hm.sized (hm.blockTxs_ne i) hforge
      obtain ⟨hbuffer, groups, hgroups, hflat⟩ :=
        ih (m := m.nextBlock (e.holding [])) hm.nextBlock hr
      refine ⟨hbuffer, m.blockTxs i :: groups, .cons (hm.publishes hi hforge) hgroups, ?_⟩
      change groups.flatten ++ m.bufferedTxs.drop j' = m.bufferedTxs.drop (i + m.nTx) at hflat
      rw [List.flatten_cons, List.append_assoc, hflat, blockTxs, ← List.drop_drop,
        List.take_append_drop]
    · simp only [Exec.pure_eq_ok_iff, Prod.mk.injEq] at hr
      obtain ⟨⟨rfl, -, rfl⟩, rfl⟩ := hr
      exact ⟨rfl, [], .nil, rfl⟩

/-- The blocks and the buffer hold what has been emitted. -/
theorem Node.publishes {allowed : Node lv → Op → Prop} {nTx persistEveryNBlock : ℕ}
    {blockOffset : Option ℕ}
    (hn : Exec.Reachable step allowed (new lv nTx blockOffset persistEveryNBlock) n) :
    n.Publishes nTx := by
  refine hn.invariant ⟨[], .nil, rfl⟩ fun m op m' hm hp hop hst => ?_
  obtain ⟨groups, hgroups, hflat⟩ := hp
  cases step_stepped hst with
  -- What is added to the buffer is added to what was emitted.
  | flush _ =>
    refine ⟨groups, hgroups, ?_⟩
    change groups.flatten ++ (m.manager.bufferedTxs ++ _) = m.emitted ++ _
    rw [← List.append_assoc, hflat]
  | pop hpop =>
    simp only [ManagerWrapper.popAllBlocks, Exec.bind_eq_ok_iff, Prod.exists, Exec.pure_eq_ok_iff,
      Prod.mk.injEq] at hpop
    obtain ⟨blocks, snapshots, j, m₁, hpop, ⟨rfl, -⟩, rfl⟩ := hpop
    -- The new blocks take their transactions from the front of the buffer.
    obtain ⟨hbuffer, groups', hgroups', hflat'⟩ := (buffered hm).encodes.popLoop_publishes hpop
    rw [(buffered hm).nTx_eq] at hgroups'
    refine ⟨groups ++ groups', List.rel_append hgroups hgroups', ?_⟩
    change (groups ++ groups').flatten ++ m₁.bufferedTxs.drop j = m.emitted
    rw [List.flatten_append, List.append_assoc, hbuffer, hflat']
    exact hflat
  | @apply _ raw s' _ =>
    cases raw with
    | none => exact ⟨groups, hgroups, hflat⟩
    | some raw =>
      refine ⟨groups, hgroups, ?_⟩
      change groups.flatten ++ (m.manager.bufferedTxs ++ [raw]) = m.emitted ++ [raw]
      rw [← List.append_assoc, hflat]

variable [FluidexCommon.Documented]

/-- The record of a transaction says what it publishes. -/
theorem RawTx.Emitted.published_eq {e : TxDataEncoder} (he : e.Sized) {tx tx' : RawTx}
    (htx : tx.Emitted) (htx' : tx'.Emitted) {bytes : List UInt8} (hr : tx.HasRecord e bytes)
    (hr' : tx'.HasRecord e bytes) : tx.published = tx'.published := by
  obtain ⟨h, hh, hf, hbits⟩ := hr.bits he htx.txType_ne
  obtain ⟨h', hh', hf', hbits'⟩ := hr'.bits he htx'.txType_ne
  obtain ⟨fields, hreads, hfull, hrec⟩ := htx.reads he hh hf
  obtain ⟨fields', hreads', hfull', hrec'⟩ := htx'.reads he hh' hf'
  refine hreads.eq_of_record_eq hreads' hfull hfull' ?_
  rw [← hrec, ← hrec', ← hbits, ← hbits']

/-- The public data of a block says what its transactions publish, and how many there are. -/
theorem PublicRecords.published_eq {e : TxDataEncoder} (he : e.Sized) {txs txs' : List RawTx}
    {bytes : List UInt8} (h : PublicRecords e txs bytes) (h' : PublicRecords e txs' bytes)
    (htxs : ∀ tx ∈ txs, tx.Emitted) (htxs' : ∀ tx ∈ txs', tx.Emitted) :
    txs.map RawTx.published = txs'.map RawTx.published := by
  have hpos : 0 < e.txEncodeBits / 8 := by
    obtain ⟨-, hcommon, -, -⟩ := dataBits_spec e.accountBits e.tokenBits e.orderBits
    rw [he]
    omega
  have hlength : txs.length = txs'.length :=
    Nat.eq_of_mul_eq_mul_right hpos (h.length_eq.symm.trans h'.length_eq)
  refine List.ext_getElem (by rw [List.length_map, List.length_map, hlength]) fun i hi hi' => ?_
  rw [List.length_map] at hi hi'
  rw [List.getElem_map, List.getElem_map]
  exact (htxs _ (List.getElem_mem hi)).published_eq he (htxs' _ (List.getElem_mem hi'))
    (h.hasRecord i _ (List.getElem?_eq_getElem hi))
    (h'.hasRecord i _ (List.getElem?_eq_getElem hi'))

/-- From equal public data the same is read. -/
theorem L2Block.Publishes.published_eq {lv : Levels} {nTx nTx' : ℕ} {block block' : L2Block}
    {txs txs' : List RawTx} (h : block.Publishes (Node.encoder lv) nTx txs)
    (h' : block'.Publishes (Node.encoder lv) nTx' txs')
    (hdata : block.publicData = block'.publicData) (htxs : ∀ tx ∈ txs, tx.Emitted)
    (htxs' : ∀ tx ∈ txs', tx.Emitted) : txs.map RawTx.published = txs'.map RawTx.published :=
  h.records.published_eq (TxDataEncoder.sized_new _ _ _) (hdata ▸ h'.records) htxs htxs'

/-! ## Accounts without orders -/

omit [FluidexCommon.Documented]

omit [FluidexCommon] in
/-- There are no orders, and what is not a key is empty. -/
structure Entry.Bare (e : Entry lv) : Prop where
  orders : ∀ pos, e.orders.lookup pos = none
  sign : e.state.ay = 0 → e.state.sign = 0

namespace Entry.Bare

variable {e e' : Entry lv}

/-- A new account has neither a key nor orders. -/
theorem create (lv : Levels) (n : ℕ) : (Entry.create lv n).Bare := ⟨fun _ => rfl, fun _ => rfl⟩

omit [FluidexCommon] in
theorem congr (h : e.Bare) (hkey : e'.key = e.key) (ho : e'.orders = e.orders) : e'.Bare := by
  obtain ⟨hsign, hay⟩ := Prod.mk.inj hkey
  refine ⟨fun pos => ?_, fun hzero => ?_⟩
  · rw [ho]
    exact h.orders pos
  · rw [hsign]
    exact h.sign (hay.symm.trans hzero)

omit [FluidexCommon] in
theorem setNewL2Addr (h : e.Bare) {l2key : Option L2Key} (hkey : ∀ k ∈ l2key, k.ay ≠ 0) :
    (e.setNewL2Addr l2key).Bare := by
  cases l2key with
  | none => exact h
  | some k => exact ⟨h.orders, fun hzero => absurd hzero (hkey k rfl)⟩

omit [FluidexCommon] in
/-- Entries without orders are committed to by their keys, nonces and balances. -/
theorem sameCommitted (h : e.Bare) (h' : e'.Bare) (hkey : e.registered = e'.registered)
    (hnonce : e.state.nonce = e'.state.nonce) (hbalances : ∀ token < 2 ^ lv.balanceLevels,
      e.balanceTree.getLeaf token = e'.balanceTree.getLeaf token) : e.SameCommitted e' where
  key := by
    rw [registered, registered] at hkey
    split at hkey <;> split at hkey
    · next hay hay' =>
      rw [key, key, hay, hay', h.sign hay, h'.sign hay']
    · cases hkey
    · cases hkey
    · exact Option.some.inj hkey
  nonce := hnonce
  balances := hbalances
  orders pos _ := by
    rw [orderAt, orderAt, h.orders, h'.orders]
    exact ⟨rfl, rfl, rfl, rfl, rfl, rfl, rfl⟩

end Entry.Bare

/-- A transfer keeps the accounts bare. -/
theorem transfer_bare (h : Shows s L) (hL : ∀ a, (L.entry a).Bare) {schedule : Shuffle Task}
    {ttx : TransferTx} {offset : Option ℤ} {rawTx : RawTx}
    (hop : (Op.transfer schedule ttx offset).Bookable s)
    (hr : s.transfer schedule ttx offset = .ok (rawTx, s')) :
    ∃ L', Shows s' L' ∧ ∀ a, (L'.entry a).Bare := by
  obtain ⟨-, htrans, -⟩ := transfer_spec h hr
  have hfrom : ((L.entry ttx.fromId).send ttx).Bare := (hL _).congr rfl rfl
  have hto : ((L.entry ttx.toId).receive ttx).Bare := (hL _).congr rfl rfl
  exact ⟨_, htrans.ne hop.2.1,
    Ledger.forall_set (Ledger.forall_set hL hfrom _) (hto.setNewL2Addr hop.2.2.2) _⟩

/-- An operation without orders keeps the accounts bare. -/
theorem apply_bare (h : Shows s L) (hL : ∀ a, (L.entry a).Bare) {op : Op} (hop : op.Bookable s)
    (horders : op.WithoutOrders) {raw : Option RawTx} (hr : s.apply op = .ok (raw, s')) :
    ∃ L', Shows s' L' ∧ ∀ a, (L'.entry a).Bare := by
  cases GlobalState.applied hr with
  | createNewAccount hr =>
    rcases createNewAccount_spec h hr with rfl | ⟨b, -, -, h'⟩
    · exact ⟨L, h, hL⟩
    · exact ⟨_, h', Ledger.forall_set hL (.create lv _) b⟩
  | setAccountL2Addr _ | setAccountNonce _ | setTokenBalance _ => exact hop.elim
  | setAccountOrder _ | fullSpotTrade _ => exact horders.elim
  | keyUpdate hr =>
    rcases keyUpdate_spec h hr with ⟨-, rfl⟩ | ⟨-, t, -, h', -⟩
    · exact ⟨L, h, hL⟩
    · refine ⟨_, h', Ledger.forall_set hL ?_ _⟩
      exact ⟨(hL _).orders, fun hzero => absurd hzero hop⟩
  | deposit hr =>
    rcases deposit_spec h hr with ⟨-, rfl⟩ | ⟨-, t, -, h', -⟩
    · exact ⟨L, h, hL⟩
    · refine ⟨_, h', Ledger.forall_set hL (.setNewL2Addr ?_ hop.2) _⟩
      exact (hL _).congr rfl rfl
  | transfer hr => exact transfer_bare h hL hop hr
  | withdraw hr =>
    obtain ⟨t, -, h', -⟩ := withdraw_spec h hr
    refine ⟨_, h', Ledger.forall_set hL ?_ _⟩
    exact (hL _).congr rfl rfl
  | cancelOrder hr =>
    obtain ⟨e, pos, order, he, -, ho, -⟩ := cancelOrder_spec h hr
    -- there is no order to cancel
    rw [← Ledger.entry_of_some he, (hL _).orders] at ho
    cases ho
  | nop | flushWithNop | popAllBlocks => exact ⟨L, h, hL⟩

/-- The operations of a run of which the public data says everything. -/
def Op.Open (s : GlobalState lv) (op : Op) : Prop := op.Bookable s ∧ op.WithoutOrders

instance (s : GlobalState lv) (op : Op) : Decidable (op.Open s) :=
  inferInstanceAs (Decidable (op.Bookable s ∧ op.WithoutOrders))

namespace Op.Open

variable {op : Op}

/-- An open operation is about tokens that have leaves. -/
theorem inRange (h : op.Open s) : op.InRange lv := by
  obtain ⟨hop, horders⟩ := h
  intro token htoken
  cases op with
  | setTokenBalance _ _ _ => exact hop.elim
  | fullSpotTrade _ _ _ => exact horders.elim
  | keyUpdate _ _ => exact List.mem_singleton.1 htoken ▸ Nat.two_pow_pos _
  | deposit _ _ | transfer _ _ _ | withdraw _ _ => exact List.mem_singleton.1 htoken ▸ hop.1
  | _ => cases htoken

theorem typed (h : op.Open s) : op.Typed := by
  cases op with
  | setAccountOrder _ _ _ | fullSpotTrade _ _ _ => exact h.2.elim
  | _ => trivial

end Op.Open

/-- What is known of a node after a run of which the public data says everything, if all
    transactions are in blocks. -/
structure Node.Replays (n : Node lv) (L : Ledger lv) (B : Books) : Prop where
  shows : Shows n.state L
  sound : ∀ a, (L.entry a).Sound
  bare : ∀ a, (L.entry a).Bare
  keeps : n.state.Keeps B
  books : Books.empty.bookAll (publishedBookings n.emitted) = some B

/-- Nodes that keep the same books have the same accounts. -/
theorem Node.Replays.sameCommitted {L' : Ledger lv} (hn : n.Replays L B) (hn' : n'.Replays L' B) :
    n.state.SameCommitted n'.state := by
  refine (hn.shows.sameCommitted_iff hn'.shows.toHolds).2 fun a _ =>
    (hn.bare a).sameCommitted (hn'.bare a) ?_ ?_ fun token htoken => ?_
  · rw [← hn.shows.registered_eq, ← hn'.shows.registered_eq, ← hn.keeps.key, hn'.keeps.key]
  · have hnonce := (hn.keeps.nonce a).trans (hn'.keeps.nonce a).symm
    rwa [GlobalState.getAccountNonce, GlobalState.getAccountNonce, hn.shows.getAccount_eq,
      hn'.shows.getAccount_eq] at hnonce
  · rw [← hn.shows.balanceOf_eq a htoken, ← hn'.shows.balanceOf_eq a htoken]
    have hbalances := congrFun (congrFun (hn.keeps.balances.symm.trans hn'.keeps.balances) a) token
    exact ZMod.val_injective _ hbalances

namespace Node

variable {nTx persistEveryNBlock : ℕ} {blockOffset : Option ℕ} {ops : List Op}

/-- Of every run there are a ledger and books to replay. -/
theorem exists_replays
    (hops : Exec.Along step (fun m op => op.Open m.state)
      (new lv nTx blockOffset persistEveryNBlock) ops)
    (hrun : Exec.run step (new lv nTx blockOffset persistEveryNBlock) ops = .ok n)
    (hlen : ops.length < 2 ^ 125) (hheading : ∀ tx ∈ n.emitted, tx.heading.isSome) :
    ∃ L B, n.Replays L B := by
  have hreach := Exec.Reachable.init.run_along hops hrun
  obtain ⟨L, h, hsound⟩ := exists_sound (fun _ _ hop => hop.inRange) hreach
  have hbare : ∃ L', Shows n.state L' ∧ ∀ a, (L'.entry a).Bare := by
    refine hreach.invariant ⟨_, shows_new lv, fun _ => .create lv _⟩ fun m op m' _ hm hop hst => ?_
    obtain ⟨L₁, h₁, hL₁⟩ := hm
    obtain ⟨raw, hr⟩ := step_state hst
    exact apply_bare h₁ hL₁ hop.1 hop.2 hr
  obtain ⟨L', h', hbare⟩ := hbare
  obtain rfl := h.unique h'.toHolds
  have hbound t : Bookkeeping.total lv.accounts Books.empty.balances t + Books.deposited t
      ((new lv nTx blockOffset persistEveryNBlock).bookings ops) < Fr.modulus := by
    have hzero := Books.total_empty lv t
    have hmod : 2 ^ 253 ≤ Fr.modulus := by decide
    have := (new lv nTx blockOffset persistEveryNBlock).deposited_bookings_le ops t
    omega
  obtain ⟨B, hbook, hB⟩ := bookAll_of_run
    (n := new lv nTx blockOffset persistEveryNBlock) (shows_new lv) (fun _ => .create lv _)
    (keeps_new lv) (hops.mono fun _ _ _ hop => hop.1) hrun hbound
  obtain ⟨txs, hemitted, hdoes⟩ := run_published (shows_new lv) hops hrun hheading
  refine ⟨L, B, h, hsound, hbare, hB, ?_⟩
  rw [hemitted]
  exact hdoes _ _ hbook

/-- If the buffer is empty, the blocks publish all that has been emitted. -/
theorem exists_groups {allowed : Node lv → Op → Prop} (hallowed : ∀ m op, allowed m op → op.Typed)
    (hn : Exec.Reachable step allowed (new lv nTx blockOffset persistEveryNBlock) n)
    (hall : n.manager.bufferedTxs = []) : ∃ groups : List (List RawTx),
    List.Forall₂ (L2Block.Publishes (encoder lv) nTx) n.blocks groups ∧
      groups.flatten = n.emitted ∧ ∀ tx ∈ n.emitted, tx.heading.isSome ∧ tx.Emitted := by
  obtain ⟨groups, hgroups, hflat⟩ := publishes hn
  rw [hall, List.append_nil] at hflat
  refine ⟨groups, hgroups, hflat, fun tx htx => ⟨?_, ?_⟩⟩
  · rw [← hflat] at htx
    obtain ⟨group, hgroup, htx⟩ := List.mem_flatten.1 htx
    obtain ⟨block, -, hpublishes⟩ := Bits.exists_mem_of_forall₂ hgroups hgroup
    obtain ⟨i, hi⟩ := List.mem_iff_getElem?.1 htx
    obtain ⟨h, hheading, -⟩ := hpublishes.records.bits i tx hi
    rw [hheading]
    rfl
  · have hby : tx.EmittedBy lv Op.Typed :=
      ⟨nTx, blockOffset, persistEveryNBlock, n, hn.mono hallowed, htx⟩
    exact hby.emitted

variable [FluidexCommon.Documented]

/-- **The public data says what the accounts are.** Two managers, whose transactions move what is
    there and trade nothing, and are all in blocks, have the same accounts and the same root if
    their blocks have published the same data. -/
theorem same_of_publicData {nTx' persistEveryNBlock' : ℕ} {blockOffset' : Option ℕ}
    {ops' : List Op} {n' : Node lv}
    (hops : Exec.Along step (fun m op => op.Open m.state)
      (new lv nTx blockOffset persistEveryNBlock) ops)
    (hops' : Exec.Along step (fun m op => op.Open m.state)
      (new lv nTx' blockOffset' persistEveryNBlock') ops')
    (hrun : Exec.run step (new lv nTx blockOffset persistEveryNBlock) ops = .ok n)
    (hrun' : Exec.run step (new lv nTx' blockOffset' persistEveryNBlock') ops' = .ok n')
    (hlen : ops.length < 2 ^ 125) (hlen' : ops'.length < 2 ^ 125)
    (hall : n.manager.bufferedTxs = []) (hall' : n'.manager.bufferedTxs = [])
    (hdata : n.blocks.map L2Block.publicData = n'.blocks.map L2Block.publicData) :
    n.state.SameCommitted n'.state ∧ n.state.root = n'.state.root := by
  have htyped (m : Node lv) (op : Op) (hop : op.Open m.state) : op.Typed := hop.typed
  obtain ⟨groups, hgroups, hflat, hemitted⟩ :=
    exists_groups htyped (.run_along .init hops hrun) hall
  obtain ⟨groups', hgroups', hflat', hemitted'⟩ :=
    exists_groups htyped (.run_along .init hops' hrun') hall'
  obtain ⟨L, B, hn⟩ := exists_replays hops hrun hlen fun tx htx => (hemitted tx htx).1
  obtain ⟨L', B', hn'⟩ := exists_replays hops' hrun' hlen' fun tx htx => (hemitted' tx htx).1
  -- the same is published, so the same is booked
  have hpublished : n.emitted.map RawTx.published = n'.emitted.map RawTx.published := by
    rw [← hflat] at hemitted ⊢
    rw [← hflat'] at hemitted' ⊢
    refine Bits.map_flatten_eq_of_forall₂ (f := L2Block.publicData) (fun _ _ _ _ h h' => ?_)
      hgroups hgroups' hdata (fun tx htx => (hemitted tx htx).2) fun tx htx => (hemitted' tx htx).2
    exact h.published_eq h'
  have hbookings : publishedBookings n.emitted = publishedBookings n'.emitted := by
    have hmap (txs : List RawTx) :
        publishedBookings txs = (txs.map RawTx.published).flatMap Published.bookings :=
      (List.flatMap_map ..).symm
    rw [hmap, hmap, hpublished]
  obtain rfl : B = B' := by
    have hbooks := hn.books
    rw [hbookings, hn'.books] at hbooks
    exact (Option.some.inj hbooks).symm
  have hsame := hn.sameCommitted hn'
  exact ⟨hsame, hn.shows.root_congr hn'.shows hn.sound hn'.sound hsame⟩

end Node

end Availability

/-- Two accounts, a transfer and a withdrawal, in blocks of two transactions. -/
def publicOps : List Op :=
  [.keyUpdate ⟨0, ⟨1, 1, 5⟩⟩ none, .deposit ⟨0, 1, 90, none⟩ none, .keyUpdate ⟨1, ⟨2, 0, 6⟩⟩ none,
    .transfer .id ⟨0, 1, 1, 50, 0, .default, none⟩ none, .withdraw ⟨1, 1, 10, 0, 50, .default⟩ none,
    .flushWithNop, .popAllBlocks]

/-- The same with other operations, one of which is refused, and other signatures. -/
def publicOps' : List Op :=
  [.createNewAccount 4, .deposit ⟨0, 0, 0, some ⟨3, 1, 5⟩⟩ none, .deposit ⟨1, 1, 7, none⟩ none,
    .deposit ⟨0, 1, 90, none⟩ (some 8), .popAllBlocks, .keyUpdate ⟨1, ⟨2, 0, 6⟩⟩ none,
    .transfer .id ⟨0, 1, 1, 50, 0, ⟨1, 2, 3, 4⟩, none⟩ none,
    .withdraw ⟨1, 1, 10, 9, 45, .default⟩ none, .nop, .popAllBlocks]

attribute [local instance] FluidexCommon.sample in
/-- Two runs that publish the same, after which the roots are equal. -/
theorem Node.same_of_publicData_publicOps :
    ∃ n n', Exec.run Node.step (Node.new Levels.small 2 none 9) publicOps = .ok n ∧
      Exec.run Node.step (Node.new Levels.small 2 (some 7) 100) publicOps' = .ok n' ∧
      n.blocks.length = 3 ∧ n.state.root = n'.state.root := by
  obtain ⟨⟨n, n'⟩, hn⟩ := Exec.exists_eq_ok (do
    let n ← Exec.run (Exec.guarded Node.step .unwrap fun n op => op.Open n.state)
      (Node.new Levels.small 2 none 9) publicOps
    let n' ← Exec.run (Exec.guarded Node.step .unwrap fun n op => op.Open n.state)
      (Node.new Levels.small 2 (some 7) 100) publicOps'
    assert (n.manager.bufferedTxs.isEmpty ∧ n'.manager.bufferedTxs.isEmpty ∧
      n.blocks.map L2Block.publicData = n'.blocks.map L2Block.publicData ∧ n.blocks.length = 3)
      "data"
    pure (n, n')) (by decide +kernel)
  simp only [Exec.bind_eq_ok_iff, Exec.assert_eq_ok_iff, Exec.pure_eq_ok_iff, Prod.mk.injEq] at hn
  obtain ⟨n, hn, n', hn', _, ⟨hall, hall', hdata, hblocks⟩, rfl, rfl⟩ := hn
  have := FluidexCommon.sample_documented
  have hrun := (Exec.Reachable.init.of_guarded hn).2
  have hrun' := (Exec.Reachable.init.of_guarded hn').2
  exact ⟨n, n', hrun, hrun', hblocks, (Node.same_of_publicData (Exec.along_of_guarded hn)
    (Exec.along_of_guarded hn') hrun hrun' (by decide) (by decide) (List.isEmpty_iff.1 hall)
    (List.isEmpty_iff.1 hall') hdata).2⟩

end Rollup
