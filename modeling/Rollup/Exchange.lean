import Rollup.Books
import Rollup.Replays

/-!
# The books of the exchange

The processor checks little of what it is sent: it relies on the exchange, of which each message
is one booking at most (`WrappedMessage.bookings`). What it does not check is that the exchange
can do these bookings itself, i.e., that it sends no withdrawal of what is not there, no transfer
to oneself or to nobody, no trade of a token for itself.

If the exchange keeps books and only sends what it has booked, the loop keeps these books
(`keeps_of_processMsg`): after any messages that have been handled, in whatever blocks they are
and whatever waiting there was between them, the state has the keys, the nonces and the balances
of the exchange.
-/

namespace Rollup

section Exchange

open Books (Booking)
open RustDecimal

variable [FluidexCommon] [RustDecimal] [Babyjubjub] [DecimalExt] [UserKey] {lv : Levels}
  {s s' : GlobalState lv} {n n' : Node lv} {L : Ledger lv} {B B' : Books}

/-! ## Messages -/

/-- The key that a user registers. -/
def UserMessage.key (m : UserMessage) : Except Panic (Fr × Fr) := do
  let l2Pubkey ← unwrap
    (UserKey.hexDecode (String.ofList (Processor.trimStart0x m.l2Pubkey.toList))).toOption
  let bjjCompressed ← unwrap
    (if h : l2Pubkey.length = 32 then some (⟨l2Pubkey.toArray, h⟩ : Vector UInt8 32) else none)
  let l2PubkeyPoint ← unwrap (UserKey.decompressPoint bjjCompressed).toOption
  let sign := if bjjCompressed.get ⟨31, Nat.lt_succ_self 31⟩ &&& 0x80 ≠ 0 then 1 else 0
  pure (sign, UserKey.y l2PubkeyPoint)

/-- A number of units of an asset, in the range of an amount. -/
def unitsOf (asset : String) (amount : Decimal) : Except Panic (ℕ × ℕ) := do
  let tokenId ← getTokenIdByName asset
  let precision ← precTokenId tokenId
  let units ← toU64 amount precision
  pure (tokenId, units.toNat)

/-- What a message says of the books of the exchange. Orders are not booked. -/
def WrappedMessage.bookings : WrappedMessage → Except Panic (List Booking)
  | .user m => do
    let key ← m.message.key
    pure [.register m.message.userId key]
  | .deposit m => do
    let (tokenId, units) ← unitsOf m.message.asset m.message.change
    pure [.deposit m.message.userId tokenId units]
  | .withdraw m => do
    let (tokenId, units) ← unitsOf m.message.asset (neg m.message.change)
    pure [.withdraw m.message.userId tokenId units]
  | .transfer m => do
    let (tokenId, units) ← unitsOf m.message.asset m.message.amount
    pure [.transfer m.message.userFrom m.message.userTo tokenId units]
  | .trade m => do
    let spotTx ← Processor.default.tradeIntoSpotTx m.message
    pure [spotTx.booking]
  | .order _ => pure []

/-- The entries of what is received: nothing is booked while waiting in vain. -/
def Received.bookings : Received → Except Panic (List Booking)
  | .msg message _ => message.bookings
  | .timeout => pure []

/-- The books of the exchange after what has been received. -/
def bookingsOf : List Received → Except Panic (List Booking)
  | [] => pure []
  | r :: rs => do
    let ks ← r.bookings
    let ks' ← bookingsOf rs
    pure (ks ++ ks')

/-! ## Handling -/

omit [RustDecimal] [Babyjubjub] [DecimalExt] [UserKey] in
/-- An operation of the processor does the bookings, all of them. -/
def GlobalState.Performs (s : GlobalState lv) (ks : List Booking) (s' : GlobalState lv) : Prop :=
  ∃ op raw, op.OfProcessor ∧ s.apply op = .ok (raw, s') ∧ op.bookings = ks ∧ s.booked op = ks

omit [RustDecimal] [Babyjubjub] [DecimalExt] [UserKey] in
/-- A call that is unwrapped emits a transaction. -/
theorem Node.performs_of_stepUnwrap {op : Op} (hr : n.stepUnwrap op = .ok n')
    (hop : op.OfProcessor) : n.state.Performs op.bookings n'.state := by
  obtain ⟨⟨result, s⟩, happly, hr⟩ := Exec.bind_eq_ok_iff.1 hr
  obtain ⟨rawTx, hraw, hr⟩ := Exec.bind_eq_ok_iff.1 hr
  obtain rfl : result = some rawTx := Exec.unwrap_eq_ok_iff.1 hraw
  obtain rfl := Except.ok.inj hr
  exact ⟨op, some rawTx, hop, happly, rfl, GlobalState.booked_some happly⟩

/-- The operations that can be refused. -/
def Op.Refusable : Op → Prop
  | .keyUpdate _ _ | .deposit _ _ => True
  | _ => False

omit [RustDecimal] [Babyjubjub] [DecimalExt] [UserKey] in
theorem GlobalState.booked_eq {op : Op} {r : Option RawTx × GlobalState lv}
    (hr : s.apply op = .ok r) (hop : ¬op.Refusable) : s.booked op = op.bookings := by
  obtain ⟨raw, s'⟩ := r
  cases raw with
  | some raw => exact booked_some hr
  | none =>
    generalize hnone : none = raw at hr
    cases applied hr with
    | keyUpdate _ | deposit _ => exact absurd trivial hop
    | transfer _ | withdraw _ | fullSpotTrade _ | nop => cases hnone
    | createNewAccount _ | setAccountL2Addr _ | setAccountNonce _ | setAccountOrder _
    | setTokenBalance _ | cancelOrder _ | flushWithNop | popAllBlocks => exact booked_none hr

omit [RustDecimal] [Babyjubjub] [DecimalExt] [UserKey] in
theorem Node.performs_of_step {op : Op} (hst : n.step op = .ok n') (hop : op.OfProcessor)
    (hrefusable : ¬op.Refusable) : n.state.Performs op.bookings n'.state := by
  obtain ⟨raw, happly⟩ := Node.step_state hst
  exact ⟨op, raw, hop, happly, rfl, GlobalState.booked_eq happly hrefusable⟩

namespace Processor

omit [FluidexCommon] [Babyjubjub] [DecimalExt] [UserKey] in
/-- The amount of a message, as it is given to the manager. -/
theorem unitsOf_eq {asset : String} {amount : Decimal} {tokenId precision : ℕ} {units : UInt64}
    (htoken : getTokenIdByName asset = .ok tokenId) (hprec : precTokenId tokenId = .ok precision)
    (hunits : toU64 amount precision = .ok units) :
    unitsOf asset amount = .ok (tokenId, (BitVec.ofNat 128 units.toNat).toNat) := by
  have hlt : units.toNat < 2 ^ 128 := units.toNat_lt.trans (by norm_num)
  rw [unitsOf, htoken, Exec.ok_bind, hprec, Exec.ok_bind, hunits, Exec.ok_bind, BitVec.toNat_ofNat,
    Nat.mod_eq_of_lt hlt]
  rfl

/-- A message that is handled is booked, or there is nothing to book. -/
theorem handleMsg_performs (p : Processor) {schedule : Shuffle Task} {message : WrappedMessage}
    (hr : p.handleMsg n schedule message = .ok n') :
    ∃ ks, message.bookings = .ok ks ∧ n.state.Performs ks n'.state := by
  cases message with
  | user message =>
    obtain ⟨-, hr⟩ := Exec.assert_bind_eq_ok_iff.1 hr
    obtain ⟨l2Pubkey, hpubkey, hr⟩ := Exec.bind_eq_ok_iff.1 hr
    obtain ⟨bjj, hbjj, hr⟩ := Exec.bind_eq_ok_iff.1 hr
    obtain ⟨point, hpoint, hr⟩ := Exec.bind_eq_ok_iff.1 hr
    obtain ⟨ethAddr, -, hr⟩ := Exec.bind_eq_ok_iff.1 hr
    refine ⟨_, ?_, Node.performs_of_stepUnwrap hr trivial⟩
    rw [WrappedMessage.bookings, UserMessage.key, hpubkey, Exec.ok_bind, hbjj, Exec.ok_bind, hpoint]
    rfl
  | deposit message =>
    obtain ⟨-, hr⟩ := Exec.assert_bind_eq_ok_iff.1 hr
    obtain ⟨tokenId, htoken, hr⟩ := Exec.bind_eq_ok_iff.1 hr
    obtain ⟨_, -, hr⟩ := Exec.bind_eq_ok_iff.1 hr
    obtain ⟨-, hr⟩ := Exec.assert_bind_eq_ok_iff.1 hr
    obtain ⟨_, -, hr⟩ := Exec.bind_eq_ok_iff.1 hr
    obtain ⟨precision, hprec, hr⟩ := Exec.bind_eq_ok_iff.1 hr
    obtain ⟨_, -, hr⟩ := Exec.bind_eq_ok_iff.1 hr
    obtain ⟨-, hr⟩ := Exec.assert_bind_eq_ok_iff.1 hr
    obtain ⟨amount, hamount, hr⟩ := Exec.bind_eq_ok_iff.1 hr
    refine ⟨_, ?_, Node.performs_of_stepUnwrap hr rfl⟩
    rw [WrappedMessage.bookings, unitsOf_eq htoken hprec hamount]
    rfl
  | withdraw message =>
    obtain ⟨-, hr⟩ := Exec.assert_bind_eq_ok_iff.1 hr
    obtain ⟨tokenId, htoken, hr⟩ := Exec.bind_eq_ok_iff.1 hr
    obtain ⟨_, -, hr⟩ := Exec.bind_eq_ok_iff.1 hr
    obtain ⟨-, hr⟩ := Exec.assert_bind_eq_ok_iff.1 hr
    obtain ⟨_, -, hr⟩ := Exec.bind_eq_ok_iff.1 hr
    obtain ⟨precision, hprec, hr⟩ := Exec.bind_eq_ok_iff.1 hr
    obtain ⟨_, -, hr⟩ := Exec.bind_eq_ok_iff.1 hr
    obtain ⟨-, hr⟩ := Exec.assert_bind_eq_ok_iff.1 hr
    obtain ⟨amount, hamount, hr⟩ := Exec.bind_eq_ok_iff.1 hr
    obtain ⟨rawSig, -, hr⟩ := Exec.bind_eq_ok_iff.1 hr
    have hbookings {tx : WithdrawTx} (haccount : tx.accountId = message.message.userId)
        (htx : tx.tokenId = tokenId) (hunits : tx.amount = .ofNat 128 amount.toNat)
        (hst : n.step (.withdraw tx message.offset) = .ok n') :
        ∃ ks, (WrappedMessage.withdraw message).bookings = .ok ks ∧
          n.state.Performs ks n'.state := by
      refine ⟨_, ?_, Node.performs_of_step hst trivial id⟩
      rw [WrappedMessage.bookings, unitsOf_eq htoken hprec hamount, Op.bookings, haccount, htx,
        hunits]
      rfl
    -- whether the signature is checked or not
    dsimp only at hr
    split at hr
    · obtain ⟨_, -, hr⟩ := Exec.bind_eq_ok_iff.1 hr
      exact hbookings rfl rfl rfl hr
    · exact hbookings rfl rfl rfl hr
  | transfer message =>
    obtain ⟨-, hr⟩ := Exec.assert_bind_eq_ok_iff.1 hr
    obtain ⟨tokenId, htoken, hr⟩ := Exec.bind_eq_ok_iff.1 hr
    obtain ⟨_, -, hr⟩ := Exec.bind_eq_ok_iff.1 hr
    obtain ⟨precision, hprec, hr⟩ := Exec.bind_eq_ok_iff.1 hr
    obtain ⟨_, -, hr⟩ := Exec.bind_eq_ok_iff.1 hr
    obtain ⟨-, hr⟩ := Exec.assert_bind_eq_ok_iff.1 hr
    obtain ⟨rawSig, -, hr⟩ := Exec.bind_eq_ok_iff.1 hr
    obtain ⟨amount, hamount, hr⟩ := Exec.bind_eq_ok_iff.1 hr
    obtain ⟨_, -, hr⟩ := Exec.bind_eq_ok_iff.1 hr
    refine ⟨_, ?_, Node.performs_of_step hr rfl id⟩
    rw [WrappedMessage.bookings, unitsOf_eq htoken hprec hamount]
    rfl
  | trade message =>
    obtain ⟨_, -, hr⟩ := Exec.bind_eq_ok_iff.1 hr
    obtain ⟨_, -, hr⟩ := Exec.bind_eq_ok_iff.1 hr
    obtain ⟨_, -, hr⟩ := Exec.bind_eq_ok_iff.1 hr
    obtain ⟨spotTx, hspot, hr⟩ := Exec.bind_eq_ok_iff.1 hr
    obtain ⟨n₁, hst, hr⟩ := Exec.bind_eq_ok_iff.1 hr
    obtain ⟨_, -, hr⟩ := Exec.bind_eq_ok_iff.1 hr
    obtain rfl := Except.ok.inj hr
    refine ⟨_, ?_, Node.performs_of_step hst trivial id⟩
    change Processor.default.tradeIntoSpotTx message.message = .ok spotTx at hspot
    rw [WrappedMessage.bookings, hspot]
    rfl
  | order message =>
    refine ⟨[], rfl, ?_⟩
    have hsame : n.state.Performs [] n.state := ⟨.popAllBlocks, none, trivial, rfl, rfl, rfl⟩
    unfold handleMsg handleOrderMsg at hr
    dsimp only at hr
    split at hr
    · obtain ⟨-, hr⟩ := Exec.assert_bind_eq_ok_iff.1 hr
      split at hr
      · obtain ⟨-, hr⟩ := Exec.assert_bind_eq_ok_iff.1 hr
        obtain rfl := Except.ok.inj hr
        exact hsame
      · obtain ⟨-, hr⟩ := Exec.assert_bind_eq_ok_iff.1 hr
        exact Node.performs_of_step hr trivial id
    all_goals
      obtain rfl := Except.ok.inj hr
      exact hsame

end Processor

/-! ## Bookings -/

omit [RustDecimal] [Babyjubjub] [DecimalExt] [UserKey]

/-- The tokens have leaves, and a key is one that the manager recognises. -/
def Books.Booking.Proper (lv : Levels) : Booking → Prop
  | .register _ key => key.2 ≠ 0
  | .deposit _ t _ | .withdraw _ t _ | .transfer _ _ t _ => t < 2 ^ lv.balanceLevels
  | .trade _ _ t u _ _ => t < 2 ^ lv.balanceLevels ∧ u < 2 ^ lv.balanceLevels

instance (lv : Levels) : (k : Booking) → Decidable (k.Proper lv)
  | .register _ key => inferInstanceAs (Decidable (key.2 ≠ 0))
  | .deposit _ t _ | .withdraw _ t _ | .transfer _ _ t _ =>
    inferInstanceAs (Decidable (t < 2 ^ lv.balanceLevels))
  | .trade _ _ t u _ _ =>
    inferInstanceAs (Decidable (t < 2 ^ lv.balanceLevels ∧ u < 2 ^ lv.balanceLevels))

omit [FluidexCommon] in
/-- What is withdrawn in the books is there. -/
theorem Books.le_of_book_withdraw {a t k : ℕ} (h : B.book (.withdraw a t k) = some B') :
    k ≤ B.balances a t := by
  obtain ⟨-, balances, hentries, -⟩ := book_eq_some_iff.1 h
  rw [Booking.entries, Bookkeeping.enterAll_cons, Bookkeeping.enter] at hentries
  by_contra hlt
  rw [if_neg hlt] at hentries
  cases hentries

/-- A transaction of which the books do the booking is bookable. -/
theorem Op.OfProcessor.bookable {op : Op} (hop : op.OfProcessor) (hB : s.Keeps B)
    (hbook : B.bookAll op.bookings = some B') (hproper : ∀ k ∈ op.bookings, k.Proper lv) :
    op.Bookable s := by
  have hhas {a : ℕ} (ha : B.key a ≠ none) : s.hasAccount a :=
    not_not.1 ((hB.key_eq_none_iff a).not.1 ha)
  cases op with
  | createNewAccount _ | cancelOrder _ _ | nop | flushWithNop | popAllBlocks => trivial
  | setAccountL2Addr _ _ _ | setAccountNonce _ _ | setAccountOrder _ _ _ | setTokenBalance _ _ _ =>
    exact hop.elim
  | keyUpdate tx _ => exact hproper _ List.mem_cons_self
  | deposit tx _ =>
    have hnone : tx.l2key = none := hop
    rw [Op.bookings, hnone] at hproper
    refine ⟨hproper _ List.mem_cons_self, fun k hk => ?_⟩
    rw [hnone] at hk
    cases hk
  | transfer _ tx _ =>
    have hnone : tx.l2key = none := hop
    rw [Op.bookings, hnone] at hproper hbook
    obtain ⟨B₁, hk, -⟩ := Option.bind_eq_some_iff.1 hbook
    obtain ⟨⟨hne, -, hto⟩, -⟩ := Books.book_eq_some_iff.1 hk
    refine ⟨hproper _ List.mem_cons_self, hne, iff_of_true hnone (hhas hto), fun k hk => ?_⟩
    rw [hnone] at hk
    cases hk
  | withdraw tx _ =>
    obtain ⟨B₁, hk, -⟩ := Option.bind_eq_some_iff.1 hbook
    have hle := Books.le_of_book_withdraw hk
    rw [hB.balances] at hle
    exact ⟨hproper _ List.mem_cons_self, hhas (Books.book_eq_some_iff.1 hk).1, hle⟩
  | fullSpotTrade _ tx _ =>
    obtain ⟨B₁, hk, -⟩ := Option.bind_eq_some_iff.1 hbook
    obtain ⟨⟨-, hne, -, -⟩, -⟩ := Books.book_eq_some_iff.1 hk
    obtain ⟨htoken1, htoken2⟩ := hproper _ List.mem_cons_self
    exact ⟨htoken1, htoken2, hne⟩

/-- Bookings that are done by a state that keeps the books, and by the books. -/
theorem GlobalState.Performs.keeps {ks : List Booking} (hs : s.Performs ks s') (h : Shows s L)
    (hread : ∀ a, (L.entry a).Readable) (hB : s.Keeps B) (hbook : B.bookAll ks = some B')
    (hproper : ∀ k ∈ ks, k.Proper lv)
    (hbound : ∀ t, Bookkeeping.total lv.accounts B.balances t + Books.deposited t ks < Fr.modulus) :
    s'.Keeps B' ∧ ∃ L', Shows s' L' ∧ ∀ a, (L'.entry a).Readable := by
  obtain ⟨op, raw, hop, hr, rfl, hbooked⟩ := hs
  have hbookable := hop.bookable hB hbook hproper
  obtain ⟨B₁, hbook₁, hB₁⟩ := apply_keeps h hread hB hbookable hr (by rw [hbooked]; exact hbound)
  rw [hbooked, hbook, Option.some.injEq] at hbook₁
  subst hbook₁
  exact ⟨hB₁, apply_readable h hread hbookable.keepsReads hr⟩

/-! ## The loop -/

variable [RustDecimal] [Babyjubjub] [DecimalExt] [UserKey]

/-- An iteration of the loop does the bookings of what is received. -/
theorem Node.processMsg_performs {received : Received} (hr : n.processMsg received = .ok n') :
    ∃ ks, received.bookings = .ok ks ∧ n.state.Performs ks n'.state := by
  obtain ⟨n₁, hrec, hpop⟩ := Exec.bind_eq_ok_iff.1 hr
  have hsame (m : Node lv) : m.state.Performs [] m.state :=
    ⟨.popAllBlocks, none, trivial, rfl, rfl, rfl⟩
  have hfirst : ∃ ks, received.bookings = .ok ks ∧ n.state.Performs ks n₁.state := by
    cases received with
    | msg message schedule => exact Processor.default.handleMsg_performs hrec
    | timeout =>
      refine ⟨[], rfl, ?_⟩
      rw [receive] at hrec
      split at hrec
      · exact performs_of_step hrec trivial id
      · obtain rfl := Except.ok.inj hrec
        exact hsame n
  -- the blocks are popped from the same state
  obtain ⟨raw, hstate⟩ := step_state hpop
  rw [GlobalState.apply, Exec.pure_eq_ok_iff, Prod.mk.injEq] at hstate
  rw [← hstate.2]
  exact hfirst

/-- Everything that has been handled can be booked, and the amounts have 128 bits. -/
theorem Node.run_bookings {received : List Received}
    (hrun : Exec.run Node.processMsg n received = .ok n') : ∃ ks, bookingsOf received = .ok ks ∧
      ∀ token, Books.deposited token ks ≤ received.length * 2 ^ 128 := by
  induction received generalizing n with
  | nil => exact ⟨[], rfl, fun _ => Nat.zero_le _⟩
  | cons r rs ih =>
    obtain ⟨n₁, hr, hrun⟩ := Exec.run_cons.1 hrun
    obtain ⟨_, hks, op, -, -, -, rfl, -⟩ := processMsg_performs hr
    obtain ⟨ks', hks', hle⟩ := ih hrun
    refine ⟨op.bookings ++ ks', ?_, fun token => ?_⟩
    · rw [bookingsOf, hks, Exec.ok_bind, hks']
      rfl
    · have := op.deposited_bookings token
      have := hle token
      rw [Books.deposited_append, List.length_cons]
      omega

theorem Node.keeps_of_run_processMsg {received : List Received} {ks : List Booking}
    (h : Shows n.state L) (hread : ∀ a, (L.entry a).Readable) (hB : n.state.Keeps B)
    (hrun : Exec.run Node.processMsg n received = .ok n') (hks : bookingsOf received = .ok ks)
    (hproper : ∀ k ∈ ks, k.Proper lv) (hbook : B.bookAll ks = some B')
    (hbound : ∀ t, Bookkeeping.total lv.accounts B.balances t + Books.deposited t ks < Fr.modulus) :
    n'.state.Keeps B' ∧ ∃ L', Shows n'.state L' ∧ ∀ a, (L'.entry a).Readable := by
  induction received generalizing n L B ks with
  | nil =>
    obtain rfl := Exec.run_nil.1 hrun
    obtain rfl := Except.ok.inj hks
    obtain rfl := Option.some.inj hbook
    exact ⟨hB, L, h, hread⟩
  | cons r rs ih =>
    obtain ⟨n₁, hr, hrun⟩ := Exec.run_cons.1 hrun
    obtain ⟨ks₁, hks₁, hperforms⟩ := processMsg_performs hr
    rw [bookingsOf, hks₁, Exec.ok_bind] at hks
    obtain ⟨ks₂, hks₂, hks⟩ := Exec.bind_eq_ok_iff.1 hks
    obtain rfl := Except.ok.inj hks
    rw [List.forall_mem_append] at hproper
    rw [Books.bookAll_append] at hbook
    obtain ⟨B₁, hbook₁, hbook₂⟩ := Option.bind_eq_some_iff.1 hbook
    simp only [Books.deposited_append] at hbound
    obtain ⟨hB₁, L₁, h₁, hread₁⟩ := hperforms.keeps h hread hB hbook₁ hproper.1 fun t => by
      have := hbound t
      omega
    -- What has been booked so far is part of the total from then on.
    have htotal := h₁.total_bookAll hB₁ hbook₁
    refine ih h₁ hread₁ hB₁ hrun hks₂ hproper.2 hbook₂ fun t => ?_
    have := hbound t
    have := htotal t
    omega

/-- The same from the start, as the amounts are those of messages. -/
theorem Node.keeps_of_new_processMsg {nTx persistEveryNBlock : ℕ} {blockOffset : Option ℕ}
    {received : List Received} {ks : List Booking} (hlen : received.length < 2 ^ 125)
    (hrun : Exec.run Node.processMsg (Node.new lv nTx blockOffset persistEveryNBlock) received =
      .ok n) (hks : bookingsOf received = .ok ks)
    (hle : ∀ token, Books.deposited token ks ≤ received.length * 2 ^ 128)
    (hproper : ∀ k ∈ ks, k.Proper lv) (hbook : Books.empty.bookAll ks = some B) :
    n.state.Keeps B ∧ ∃ L, Shows n.state L ∧ ∀ a, (L.entry a).Readable := by
  refine Node.keeps_of_run_processMsg (n := Node.new lv nTx blockOffset persistEveryNBlock)
    (shows_new lv) (fun _ => .create lv _) (keeps_new lv) hrun hks hproper hbook fun t => ?_
  have hzero := Books.total_empty lv t
  have hmod : 2 ^ 253 ≤ Fr.modulus := by decide
  have := hle t
  omega

/-- **The loop keeps the books of the exchange.** Messages that have been handled can be booked,
    and if the exchange has done so itself, the state keeps its books. -/
theorem keeps_of_processMsg {nTx persistEveryNBlock : ℕ} {blockOffset : Option ℕ}
    {received : List Received} (hlen : received.length < 2 ^ 125)
    (hrun : Exec.run Node.processMsg (Node.new lv nTx blockOffset persistEveryNBlock) received =
      .ok n) :
    ∃ ks, bookingsOf received = .ok ks ∧ ∀ B, (∀ k ∈ ks, k.Proper lv) →
      Books.empty.bookAll ks = some B → n.state.Keeps B := by
  obtain ⟨ks, hks, hle⟩ := Node.run_bookings hrun
  exact ⟨ks, hks, fun B hproper hbook =>
    (Node.keeps_of_new_processMsg hlen hrun hks hle hproper hbook).1⟩

end Exchange

section Example

attribute [local instance] FluidexCommon.sample RustDecimal.sample Babyjubjub.sample
  DecimalExt.sample UserKey.sample

/-- Of five `ETH`, two are paid to another user, and three are withdrawn. -/
def spentFive : List Received :=
  [newUser 0 1, newUser 1 2, depositFive 3, .timeout, payEth 1 2 4,
    .msg (.withdraw ⟨{
      userId := 0
      asset := "ETH"
      change := (-3 : ℚ)
      balance := (0 : ℚ)
      signature := Babyjubjub.sampleSign (WithdrawTx.new 0 0 30000 0).hash usersKey }, some 5⟩) .id]

theorem keeps_of_processMsg_spentFive : ∃ n B,
    Exec.run Node.processMsg (Node.new Levels.small 2 none 9) spentFive = .ok n ∧
      Books.empty.bookAll [.register 0 (0, (usersKey : Fr)), .register 1 (0, (usersKey : Fr)),
        .deposit 0 0 50000, .transfer 0 1 0 20000, .withdraw 0 0 30000] = some B ∧
      n.state.Keeps B := by
  obtain ⟨n, hn⟩ := Exec.exists_eq_ok (Exec.run Node.processMsg (Node.new Levels.small 2 none 9)
    spentFive) (by decide +kernel)
  obtain ⟨ks, hks, hkeeps⟩ := keeps_of_processMsg (by decide) hn
  have hbookings : bookingsOf spentFive = .ok [.register 0 (0, (usersKey : Fr)),
      .register 1 (0, (usersKey : Fr)), .deposit 0 0 50000, .transfer 0 1 0 20000,
      .withdraw 0 0 30000] := by decide +kernel
  obtain rfl := Except.ok.inj (hks.symm.trans hbookings)
  obtain ⟨B, hB⟩ := Option.isSome_iff_exists.1
    (show (Books.empty.bookAll [.register 0 (0, (usersKey : Fr)), .register 1 (0, (usersKey : Fr)),
      .deposit 0 0 50000, .transfer 0 1 0 20000, .withdraw 0 0 30000]).isSome by decide +kernel)
  exact ⟨n, B, hn, hB, hkeeps B (by decide +kernel) hB⟩

end Example

end Rollup
