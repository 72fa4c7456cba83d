import Rollup.Keys
import Rollup.Lib.Bookkeeping
import Rollup.Settlement

/-!
# The books of the exchange

What the state manager is for, without trees, hashes and field elements: every account may
have registered a key, has signed a number of transactions and holds amounts of tokens
(`Books`), and a *booking* registers a key or moves amounts that are there (`Books.book`).

The global state keeps the books (`GlobalState.Keeps`). A run of the manager does the bookings
of the transactions it accepts (`Node.bookings`), and its state keeps the books after them, if
no token is deposited beyond the order of the field and every transaction is *bookable*
(`Op.Bookable`): the manager itself checks neither that what is withdrawn is there, nor that
the receiver of a transfer has a key and is not the sender, nor that a trade is about two
different tokens, nor that tokens have leaves (`keeps_of_run`). The books then say what there
is: the deposits less the withdrawals (`totalOf_of_run`).
-/

namespace Rollup

/-! ## Books -/

/-- What the exchange would write down of its accounts, without trees or roots. -/
structure Books where
  key : ℕ → Option (Fr × Fr)
  /-- The number of the transactions the account has signed. -/
  nonce : ℕ → ℕ
  balances : Bookkeeping.Balances ℕ ℕ ℕ

namespace Books

/-- The entries of the books, with amounts that are plain numbers. -/
inductive Booking where
  | register (accountId : ℕ) (key : Fr × Fr)
  | deposit (accountId tokenId amount : ℕ)
  | withdraw (accountId tokenId amount : ℕ)
  | transfer (fromId toId tokenId amount : ℕ)
  | trade (account1Id account2Id tokenId1to2 tokenId2to1 amount1to2 amount2to1 : ℕ)
  deriving DecidableEq

namespace Booking

/-- What is moved. -/
def entries : Booking → List (Bookkeeping.Entry ℕ ℕ)
  | register _ _ => []
  | deposit a t n => [.credit a t n]
  | withdraw a t n => [.debit a t n]
  | transfer a b t n => Bookkeeping.move a b t n
  | trade a b t u n m => Bookkeeping.move a b t n ++ Bookkeeping.move b a u m

/-- The account that signs the transaction and spends a nonce. -/
def signer : Booking → Option ℕ
  | withdraw a _ _ | transfer a _ _ _ => some a
  | _ => none

/-- The key that is registered. -/
def registers : Booking → Option (ℕ × (Fr × Fr))
  | register a key => some (a, key)
  | _ => none

end Booking

/-- No account has a key, and nobody has anything. -/
def empty : Books := ⟨fun _ => none, fun _ => 0, fun _ _ => 0⟩

/-- A key is registered once, and amounts are moved between different accounts with keys. -/
def Allows (B : Books) : Booking → Prop
  | .register a _ => B.key a = none
  | .deposit a _ _ | .withdraw a _ _ => B.key a ≠ none
  | .transfer a b _ _ => a ≠ b ∧ B.key a ≠ none ∧ B.key b ≠ none
  | .trade a b t u _ _ => a ≠ b ∧ t ≠ u ∧ B.key a ≠ none ∧ B.key b ≠ none

instance (B : Books) : (k : Booking) → Decidable (B.Allows k)
  | .register a _ => inferInstanceAs (Decidable (B.key a = none))
  | .deposit a _ _ | .withdraw a _ _ => inferInstanceAs (Decidable (B.key a ≠ none))
  | .transfer a b _ _ => inferInstanceAs (Decidable (a ≠ b ∧ B.key a ≠ none ∧ B.key b ≠ none))
  | .trade a b t u _ _ =>
    inferInstanceAs (Decidable (a ≠ b ∧ t ≠ u ∧ B.key a ≠ none ∧ B.key b ≠ none))

/-- The books with other balances, once the key is registered and the nonce spent. -/
def record (B : Books) (k : Booking) (balances : Bookkeeping.Balances ℕ ℕ ℕ) : Books where
  key := k.registers.elim B.key fun r => Function.update B.key r.1 (some r.2)
  nonce := k.signer.elim B.nonce fun a => Function.update B.nonce a (B.nonce a + 1)
  balances := balances

/-- A booking that is not allowed, or not covered, is not done. -/
def book (B : Books) (k : Booking) : Option Books :=
  if B.Allows k then (Bookkeeping.enterAll B.balances k.entries).map (B.record k) else none

/-- The entries one after the other, or nothing if one of them is refused. -/
def bookAll (B : Books) (ks : List Booking) : Option Books := ks.foldlM book B

variable {B B' : Books} {k : Booking} {ks ks' : List Booking}

@[simp] theorem bookAll_nil (B : Books) : B.bookAll [] = some B := rfl

@[simp] theorem bookAll_cons (B : Books) (k : Booking) (ks : List Booking) :
    B.bookAll (k :: ks) = (B.book k).bind fun B' => B'.bookAll ks := rfl

/-- Entries in two parts. -/
theorem bookAll_append (B : Books) (ks ks' : List Booking) :
    B.bookAll (ks ++ ks') = (B.bookAll ks).bind fun B' => B'.bookAll ks' := by
  rw [bookAll, List.foldlM_append]
  rfl

/-- An entry is made if the books allow it and no balance falls below zero. -/
theorem book_eq_some_iff : B.book k = some B' ↔ B.Allows k ∧ ∃ balances,
    Bookkeeping.enterAll B.balances k.entries = some balances ∧ B.record k balances = B' := by
  rw [book, Option.ite_none_right_eq_some, Option.map_eq_some_iff]

theorem book_of {balances : Bookkeeping.Balances ℕ ℕ ℕ} (hk : B.Allows k)
    (he : Bookkeeping.enterAll B.balances k.entries = some balances) :
    B.book k = some (B.record k balances) :=
  book_eq_some_iff.2 ⟨hk, balances, he, rfl⟩

/-- All the entries of the bookings are entered. -/
theorem enterAll_of_bookAll (h : B.bookAll ks = some B') :
    Bookkeeping.enterAll B.balances (ks.flatMap Booking.entries) = some B'.balances := by
  induction ks generalizing B with
  | nil =>
    obtain rfl := Option.some.inj h
    rfl
  | cons k ks ih =>
    obtain ⟨B₁, hk, hks⟩ := Option.bind_eq_some_iff.1 h
    obtain ⟨-, balances, hentries, rfl⟩ := book_eq_some_iff.1 hk
    rw [List.flatMap_cons, Bookkeeping.enterAll_append, hentries]
    exact ih hks

end Books

/-! ## The books of a state -/

section Keeping

open Bookkeeping (put read enter enterAll total)

variable [FluidexCommon] {lv : Levels} {s s' : GlobalState lv} {L : Ledger lv} {B B' : Books}
  {a token : ℕ} {e : Entry lv}

/-- The key of an account, if it has one. -/
def GlobalState.registered (s : GlobalState lv) (accountId : ℕ) : Option (Fr × Fr) :=
  if s.hasAccount accountId then some (s.keyOf accountId) else none

/-- The state keeps these books: the keys, the nonces and the balances are the same. -/
structure GlobalState.Keeps (s : GlobalState lv) (B : Books) : Prop where
  key : B.key = s.registered
  nonce : ∀ a, s.getAccountNonce a = B.nonce a
  balances : B.balances = read ZMod.val s.balanceOf

omit [FluidexCommon] in
/-- The same, in an entry. -/
def Entry.registered (e : Entry lv) : Option (Fr × Fr) :=
  if e.state.ay = 0 then none else some e.key

omit [FluidexCommon] in
/-- An account with a key is registered with it. -/
theorem Entry.registered_of_keyed (h : e.state.ay ≠ 0) : e.registered = some e.key := if_neg h

omit [FluidexCommon] in
theorem Entry.registered_congr {e' : Entry lv} (h : e'.key = e.key) :
    e'.registered = e.registered := by
  have hay : e'.state.ay = e.state.ay := congrArg Prod.snd h
  rw [registered, registered, h, hay]

namespace Holds

/-- What is registered for an account is read from its entry. -/
theorem registered_eq (h : Holds s L) (a : ℕ) : s.registered a = (L.entry a).registered := by
  rw [GlobalState.registered, Entry.registered, h.keyOf_eq]
  by_cases hay : (L.entry a).state.ay = 0
  · rw [if_pos hay, if_neg fun ha => (h.hasAccount_iff a).1 ha hay]
  · rw [if_neg hay, if_pos ((h.hasAccount_iff a).2 hay)]

/-- Only the account whose entry is set may be registered differently. -/
theorem registered_set (h : Holds s L) (h' : Holds s' (L.set a e)) :
    s'.registered = Function.update s.registered a e.registered := by
  funext b
  rw [h'.registered_eq, Ledger.entry_set, Function.update_apply, h.registered_eq]
  split <;> rfl

/-- Only the account whose entry is set may have another nonce. -/
theorem nonce_set (h : Holds s L) (h' : Holds s' (L.set a e)) (b : ℕ) :
    s'.getAccountNonce b = if b = a then e.state.nonce else s.getAccountNonce b := by
  rw [GlobalState.getAccountNonce, h'.getAccount_eq, Ledger.entry_set,
    GlobalState.getAccountNonce, h.getAccount_eq]
  split <;> rfl

/-- What an account holds after a change of its entry. -/
theorem balanceOf_set (h : Holds s L) (h' : Holds s' (L.set a e)) (b : ℕ) :
    s'.balanceOf b token = if b = a then
      if token < 2 ^ lv.balanceLevels then e.balanceTree.getLeaf token else 0
    else s.balanceOf b token := by
  by_cases htoken : token < 2 ^ lv.balanceLevels
  · rw [h'.balanceOf_eq b htoken, h.balanceOf_eq b htoken, Ledger.entry_set, if_pos htoken]
    split <;> rfl
  · rw [s'.balanceOf_of_le b htoken, s.balanceOf_of_le b htoken, if_neg htoken, ite_self]

/-- Writing a leaf of an account is replacing its balance. -/
theorem balanceOf_put (h : Holds s L) (h' : Holds s' (L.set a e))
    (htoken : token < 2 ^ lv.balanceLevels) {v : Fr}
    (hset : (L.entry a).balanceTree.setValue token v = .ok e.balanceTree) :
    s'.balanceOf = put s.balanceOf a token v := by
  funext b u
  rw [h.balanceOf_set h', Bookkeeping.put_apply]
  rcases eq_or_ne b a with rfl | hb
  · rw [if_pos rfl]
    by_cases hu : u < 2 ^ lv.balanceLevels
    · rw [if_pos hu, Tree.getLeaf_setValue hset hu, h.balanceOf_eq b hu]
      simp only [true_and]
    · rw [if_neg hu, s.balanceOf_of_le b hu, if_neg]
      rintro ⟨-, rfl⟩
      exact hu htoken
  · rw [if_neg hb, if_neg fun hc => hb hc.1]

/-- The books are kept if neither the key nor the nonce nor the balances change. -/
theorem keeps_set (h : Holds s L) (h' : Holds s' (L.set a e)) (hB : s.Keeps B)
    (hkey : e.key = (L.entry a).key) (hnonce : e.state.nonce = (L.entry a).state.nonce)
    (htree : e.balanceTree = (L.entry a).balanceTree) : s'.Keeps B where
  key := by
    rw [h.registered_set h', Entry.registered_congr hkey, ← h.registered_eq,
      Function.update_eq_self]
    exact hB.key
  nonce b := by
    rw [← hB.nonce, h.nonce_set h', GlobalState.getAccountNonce, h.getAccount_eq, hnonce]
    split
    · next hb => rw [hb]
    · rfl
  balances := by
    rw [hB.balances]
    congr 1
    funext b u
    rw [h.balanceOf_set h', htree]
    split
    · next hb =>
      rw [hb]
      split
      · next hu => rw [h.balanceOf_eq a hu]
      · next hu => rw [s.balanceOf_of_le a hu]
    · rfl

/-- What is read of an account that holds nothing without a key is what it holds. -/
theorem balance_of_readable (h : Holds s L) (hread : (L.entry a).Readable)
    (htoken : token < 2 ^ lv.balanceLevels) : (L.entry a).balance token = s.balanceOf a token := by
  rw [h.balanceOf_eq a htoken, Entry.balance]
  split
  · next hay => rw [hread hay token htoken]
  · rfl

end Holds

/-! ## Bookings -/

/-- The entry of a trade, whose amounts are in the field. -/
def SpotTradeTx.booking (t : SpotTradeTx) : Books.Booking :=
  .trade t.order1AccountId t.order2AccountId t.tokenId1to2 t.tokenId2to1 t.amount1to2.val
    t.amount2to1.val

/-- What an operation that is accepted books. -/
def Op.bookings : Op → List Books.Booking
  | .keyUpdate tx _ => [.register tx.accountId (tx.l2key.sign, tx.l2key.ay)]
  | .deposit tx _ =>
    (tx.l2key.map fun k => .register tx.accountId (k.sign, k.ay)).toList ++
      [.deposit tx.accountId tx.tokenId tx.amount.toNat]
  | .transfer _ tx _ =>
    (tx.l2key.map fun k => .register tx.toId (k.sign, k.ay)).toList ++
      [.transfer tx.fromId tx.toId tx.tokenId tx.amount.toNat]
  | .withdraw tx _ => [.withdraw tx.accountId tx.tokenId tx.amount.toNat]
  | .fullSpotTrade _ tx _ => [tx.trade.booking]
  | _ => []

/-- The transactions the books can follow. Those that move amounts are about tokens with
    leaves; a withdrawal takes what is there, a transfer goes to another account, which has a
    key or gets one, a trade is about two tokens, and nothing is set directly. -/
def Op.Bookable (s : GlobalState lv) : Op → Prop
  | .setAccountL2Addr _ _ _ | .setAccountNonce _ _ | .setTokenBalance _ _ _ => False
  | .keyUpdate tx _ => tx.l2key.ay ≠ 0
  | .deposit tx _ => tx.tokenId < 2 ^ lv.balanceLevels ∧ ∀ k ∈ tx.l2key, k.ay ≠ 0
  | .transfer _ tx _ => tx.tokenId < 2 ^ lv.balanceLevels ∧ tx.fromId ≠ tx.toId ∧
      (tx.l2key = none ↔ s.hasAccount tx.toId) ∧ ∀ k ∈ tx.l2key, k.ay ≠ 0
  | .withdraw tx _ => tx.tokenId < 2 ^ lv.balanceLevels ∧ s.hasAccount tx.accountId ∧
      tx.amount.toNat ≤ (s.balanceOf tx.accountId tx.tokenId).val
  | .fullSpotTrade _ tx _ => tx.trade.tokenId1to2 < 2 ^ lv.balanceLevels ∧
      tx.trade.tokenId2to1 < 2 ^ lv.balanceLevels ∧ tx.trade.tokenId1to2 ≠ tx.trade.tokenId2to1
  | _ => True

instance (s : GlobalState lv) : (op : Op) → Decidable (op.Bookable s)
  | .setAccountL2Addr _ _ _ | .setAccountNonce _ _ | .setTokenBalance _ _ _ => .isFalse id
  | .keyUpdate tx _ => inferInstanceAs (Decidable (tx.l2key.ay ≠ 0))
  | .deposit tx _ => inferInstanceAs
      (Decidable (tx.tokenId < 2 ^ lv.balanceLevels ∧ ∀ k ∈ tx.l2key, k.ay ≠ 0))
  | .transfer _ tx _ => inferInstanceAs
      (Decidable (tx.tokenId < 2 ^ lv.balanceLevels ∧ tx.fromId ≠ tx.toId ∧
        (tx.l2key = none ↔ s.hasAccount tx.toId) ∧ ∀ k ∈ tx.l2key, k.ay ≠ 0))
  | .withdraw tx _ => inferInstanceAs
      (Decidable (tx.tokenId < 2 ^ lv.balanceLevels ∧ s.hasAccount tx.accountId ∧
        tx.amount.toNat ≤ (s.balanceOf tx.accountId tx.tokenId).val))
  | .fullSpotTrade _ tx _ => inferInstanceAs
      (Decidable (tx.trade.tokenId1to2 < 2 ^ lv.balanceLevels ∧
        tx.trade.tokenId2to1 < 2 ^ lv.balanceLevels ∧
        tx.trade.tokenId1to2 ≠ tx.trade.tokenId2to1))
  | .createNewAccount _ | .setAccountOrder _ _ _ | .cancelOrder _ _ | .nop | .flushWithNop
  | .popAllBlocks => .isTrue trivial

/-- What can be booked keeps the balances readable. -/
theorem Op.Bookable.keepsReads {op : Op} (h : op.Bookable s) : op.KeepsReads s := by
  cases op with
  | setAccountL2Addr _ _ _ | setAccountNonce _ _ | setTokenBalance _ _ _ => exact h.elim
  | deposit tx _ => exact fun k hk hay => absurd hay (h.2 k hk)
  | transfer _ tx _ =>
    obtain ⟨-, -, hnone, hkey⟩ := h
    rw [KeepsReads]
    split
    · next hk => exact .inl (hnone.1 hk)
    · next k hk => exact fun hay => absurd hay (hkey k hk)
  | withdraw tx _ => exact .inl h.2.1
  | _ => trivial

/-- The accounts that there can be. -/
def Levels.accounts (lv : Levels) : Finset ℕ := Finset.range (2 ^ lv.accountLevels)

/-- The books after a key that comes with a transaction is registered. -/
def Books.withKey (B : Books) (accountId : ℕ) (l2key : Option L2Key) : Books :=
  { B with key := l2key.elim B.key fun k => Function.update B.key accountId (some (k.sign, k.ay)) }

omit [FluidexCommon] in
/-- A key is registered for an account without one. -/
theorem Books.bookAll_register {l2key : Option L2Key} (h : ∀ k ∈ l2key, B.key a = none)
    (ks : List Booking) :
    B.bookAll ((l2key.map fun k => Booking.register a (k.sign, k.ay)).toList ++ ks) =
      (B.withKey a l2key).bookAll ks := by
  cases l2key with
  | none => rfl
  | some k =>
    rw [Option.map_some, Option.toList_some, List.singleton_append, bookAll_cons,
      book_of (k := .register a _) (h k rfl) rfl]
    rfl

omit [FluidexCommon] in
/-- An account that gets a key, or had one, has a key. -/
theorem Books.withKey_key_ne_none {l2key : Option L2Key} (h : l2key = none → B.key a ≠ none) :
    (B.withKey a l2key).key a ≠ none := by
  cases l2key with
  | none => exact h rfl
  | some k =>
    change Function.update B.key a (some _) a ≠ none
    rw [Function.update_self]
    exact Option.some_ne_none _

omit [FluidexCommon] in
/-- The keys of the other accounts stay. -/
theorem Books.withKey_key_of_ne (B : Books) {b : ℕ} (hb : b ≠ a) (l2key : Option L2Key) :
    (B.withKey a l2key).key b = B.key b := by
  cases l2key with
  | none => rfl
  | some k => exact Function.update_of_ne hb _ _

omit [FluidexCommon] in
theorem Entry.registered_setNewL2Addr {l2key : Option L2Key} (hkey : ∀ k ∈ l2key, k.ay ≠ 0) :
    (e.setNewL2Addr l2key).registered =
      l2key.elim e.registered fun k => some (k.sign, k.ay) := by
  cases l2key with
  | none => rfl
  | some k => exact registered_of_keyed (hkey k rfl)

/-- The books have no key for an account that the state knows no key of. -/
theorem GlobalState.Keeps.key_eq_none_iff (hB : s.Keeps B) (a : ℕ) :
    B.key a = none ↔ ¬s.hasAccount a := by
  rw [hB.key, GlobalState.registered]
  split <;> simp_all

/-! ## Transactions -/

/-- The key of an account whose entry is replaced, with the key that comes with it. -/
theorem Holds.registered_withKey (h : Holds s L) {l2key : Option L2Key}
    (h' : Holds s' (L.set a (e.setNewL2Addr l2key))) (hB : s.Keeps B)
    (hold : e.key = (L.entry a).key) (hkey : ∀ k ∈ l2key, k.ay ≠ 0) :
    (B.withKey a l2key).key = s'.registered := by
  rw [h.registered_set h', Entry.registered_setNewL2Addr hkey, ← hB.key]
  cases l2key with
  | none =>
    change B.key = Function.update B.key a e.registered
    rw [Entry.registered_congr hold, ← h.registered_eq, ← hB.key, Function.update_eq_self]
  | some k => rfl

/-- A key update registers the key. -/
theorem keyUpdate_keeps (h : Shows s L) (hread : ∀ a, (L.entry a).Readable) (hB : s.Keeps B)
    {tx : UpdateKeyTx} {offset : Option ℤ} {r : Except AnyhowError RawTx} {raw : RawTx}
    (hay : tx.l2key.ay ≠ 0) (hr : s.keyUpdate tx offset = .ok (r, s'))
    (hraw : r.toOption = some raw) :
    ∃ B', B.bookAll (Op.keyUpdate tx offset).bookings = some B' ∧ s'.Keeps B' := by
  rcases keyUpdate_spec h hr with ⟨hnone, -⟩ | ⟨hnew, t, ht, h', -⟩
  · rw [hnone] at hraw
    cases hraw
  have hnone : B.key tx.accountId = none := (hB.key_eq_none_iff _).2 hnew
  have hbook := Books.book_of (B := B) (k := .register tx.accountId (tx.l2key.sign, tx.l2key.ay))
    hnone rfl
  refine ⟨_, by rw [Op.bookings, Books.bookAll_cons, hbook]; rfl, ?_, fun b => ?_, ?_⟩
  · rw [h.registered_set h'.toHolds, Entry.registered_of_keyed hay, ← hB.key]
    rfl
  · change _ = (B.nonce b : Fr)
    rw [← hB.nonce, h.nonce_set h'.toHolds]
    split
    · next hb => rw [hb, GlobalState.getAccountNonce, h.getAccount_eq]; rfl
    · rfl
  · -- the balance of the token `0` is set to zero, which it is
    have htoken : 0 < 2 ^ lv.balanceLevels := Nat.two_pow_pos _
    have hay0 : (L.entry tx.accountId).state.ay = 0 :=
      not_not.1 fun hne => hnew ((h.hasAccount_iff _).2 hne)
    have hzero : s.balanceOf tx.accountId 0 = 0 := by
      rw [h.balanceOf_eq _ htoken, hread _ hay0 0 htoken]
    rw [h.balanceOf_put h'.toHolds htoken ht, Bookkeeping.read_put, ← hzero]
    change B.balances = put (read ZMod.val s.balanceOf) _ _ (read ZMod.val s.balanceOf _ _)
    rw [Bookkeeping.put_eq_self]
    exact hB.balances

/-- A deposit is entered, unless all there is of the token would no longer fit in the field. -/
theorem deposit_keeps (h : Shows s L) (hread : ∀ a, (L.entry a).Readable) (hB : s.Keeps B)
    {tx : DepositTx} {offset : Option ℤ} {r : Except AnyhowError RawTx} {raw : RawTx}
    (hop : (Op.deposit tx offset).Bookable s) (hr : s.deposit tx offset = .ok (r, s'))
    (hraw : r.toOption = some raw)
    (hbound : total lv.accounts B.balances tx.tokenId + tx.amount.toNat < Fr.modulus) :
    ∃ B', B.bookAll (Op.deposit tx offset).bookings = some B' ∧ s'.Keeps B' := by
  obtain ⟨htoken, hkey⟩ := hop
  rcases deposit_spec h hr with ⟨hnone, -⟩ | ⟨hnew, t, ht, h', -⟩
  · rw [hnone] at hraw
    cases hraw
  -- What is read was what was stored, so that the balance grows by the amount.
  have hbal : s'.balanceOf = put s.balanceOf tx.accountId tx.tokenId
      (s.balanceOf tx.accountId tx.tokenId + tx.amount.toFr) := by
    refine h.balanceOf_put h'.toHolds htoken ?_
    rw [balanceTree_setNewL2Addr, ← h.balance_of_readable (hread _) htoken]
    exact ht
  have hmem : tx.accountId ∈ lv.accounts := Finset.mem_range.2 (h'.lt (L.set_self _ _))
  have hcredit : enter B.balances (.credit tx.accountId tx.tokenId tx.amount.toNat) =
      some (read ZMod.val s'.balanceOf) := by
    have hle := Bookkeeping.le_total B.balances hmem tx.tokenId
    rw [hB.balances] at hle ⊢
    rw [hbal, ← U128.toFr_val]
    rw [hB.balances, ← U128.toFr_val] at hbound
    exact Bookkeeping.enter_credit_val ((Nat.add_le_add_right hle _).trans_lt hbound)
  -- A key is only brought to an account that has none.
  have hregister : ∀ k ∈ tx.l2key, B.key tx.accountId = none := by
    intro k hk
    refine (hB.key_eq_none_iff _).2 fun hhas => ?_
    rw [hnew.2 hhas] at hk
    cases hk
  refine ⟨{ B.withKey tx.accountId tx.l2key with balances := read ZMod.val s'.balanceOf }, ?_,
    h.registered_withKey h'.toHolds hB rfl hkey, fun b => ?_, rfl⟩
  · have hkeyed : (B.withKey tx.accountId tx.l2key).key tx.accountId ≠ none :=
      Books.withKey_key_ne_none fun hnone =>
        (hB.key_eq_none_iff _).not.2 (not_not.2 (hnew.1 hnone))
    rw [Op.bookings, Books.bookAll_register hregister, Books.bookAll_cons,
      Books.book_of (k := .deposit _ _ _) hkeyed ((congrArg (Option.bind · _) hcredit).trans rfl)]
    rfl
  · change _ = (B.nonce b : Fr)
    rw [← hB.nonce, h.nonce_set h'.toHolds]
    split
    · next hb =>
      rw [hb, GlobalState.getAccountNonce, h.getAccount_eq]
      cases tx.l2key <;> rfl
    · rfl

/-- A withdrawal is entered, as the balance is at least the amount. -/
theorem withdraw_keeps (h : Shows s L) (hB : s.Keeps B) {tx : WithdrawTx} {offset : Option ℤ}
    {raw : RawTx} (hop : (Op.withdraw tx offset).Bookable s)
    (hr : s.withdraw tx offset = .ok (raw, s')) :
    ∃ B', B.bookAll (Op.withdraw tx offset).bookings = some B' ∧ s'.Keeps B' := by
  obtain ⟨htoken, hhas, hfunds⟩ := hop
  obtain ⟨t, ht, h', -⟩ := withdraw_spec h hr
  have hbal : s'.balanceOf = put s.balanceOf tx.accountId tx.tokenId
      (s.balanceOf tx.accountId tx.tokenId - tx.amount.toFr) := by
    refine h.balanceOf_put h'.toHolds htoken ?_
    rw [h.entry_balance_eq _ htoken, if_pos hhas] at ht
    exact ht
  -- The balance is at least the amount, so nothing wraps around.
  have hdebit : enter B.balances (.debit tx.accountId tx.tokenId tx.amount.toNat) =
      some (read ZMod.val s'.balanceOf) := by
    rw [hB.balances, hbal, ← U128.toFr_val]
    rw [← U128.toFr_val] at hfunds
    exact Bookkeeping.enter_debit_val hfunds
  have hkeyed : B.key tx.accountId ≠ none := (hB.key_eq_none_iff _).not.2 (not_not.2 hhas)
  refine ⟨B.record (.withdraw tx.accountId tx.tokenId tx.amount.toNat)
    (read ZMod.val s'.balanceOf), ?_, ?_, fun b => ?_, rfl⟩
  · rw [Op.bookings, Books.bookAll_cons,
      Books.book_of (k := .withdraw _ _ _) hkeyed ((congrArg (Option.bind · _) hdebit).trans rfl)]
    rfl
  · change B.key = _
    rw [hB.key, h.registered_set h'.toHolds]
    exact (Function.update_eq_self_iff.2 (h.registered_eq _).symm).symm
  · change _ = ((Function.update B.nonce tx.accountId (B.nonce tx.accountId + 1) b : ℕ) : Fr)
    rw [h.nonce_set h'.toHolds, Function.update_apply]
    split
    · rw [Nat.cast_add, Nat.cast_one, ← hB.nonce, GlobalState.getAccountNonce, h.getAccount_eq]
      rfl
    · exact hB.nonce b

/-- The balances after a transfer to another account. -/
theorem transfer_balanceOf (h : Shows s L) (hread : ∀ a, (L.entry a).Readable) {tx : TransferTx}
    (htoken : tx.tokenId < 2 ^ lv.balanceLevels) (hne : tx.fromId ≠ tx.toId)
    (ht : TransferBalances L tx s') : s'.balanceOf =
      put (put s.balanceOf tx.fromId tx.tokenId
        (s.balanceOf tx.fromId tx.tokenId - tx.amount.toFr)) tx.toId tx.tokenId
        (s.balanceOf tx.toId tx.tokenId + tx.amount.toFr) := by
  funext a token
  by_cases hlt : token < 2 ^ lv.balanceLevels
  · rw [ht.ne hne a token hlt, Bookkeeping.put_apply, Bookkeeping.put_apply,
      h.balance_of_readable (hread _) htoken, h.balance_of_readable (hread _) htoken,
      ← h.balanceOf_eq a hlt]
    grind
  · have hother : token ≠ tx.tokenId := fun hc => hlt (hc ▸ htoken)
    rw [Bookkeeping.put_of_ne _ _ fun hc => hother hc.2,
      Bookkeeping.put_of_ne _ _ fun hc => hother hc.2, s'.balanceOf_of_le a hlt,
      s.balanceOf_of_le a hlt]

/-- A transfer between two accounts is entered: it wins nothing and loses nothing. -/
theorem transfer_keeps (h : Shows s L) (hread : ∀ a, (L.entry a).Readable) (hB : s.Keeps B)
    {schedule : Shuffle Task} {tx : TransferTx} {offset : Option ℤ} {raw : RawTx}
    (hop : (Op.transfer schedule tx offset).Bookable s)
    (hr : s.transfer schedule tx offset = .ok (raw, s'))
    (hbound : total lv.accounts B.balances tx.tokenId < Fr.modulus) :
    ∃ B', B.bookAll (Op.transfer schedule tx offset).bookings = some B' ∧ s'.Keeps B' := by
  obtain ⟨htoken, hne, hnew, hkey⟩ := hop
  obtain ⟨hcan, htrans, -⟩ := transfer_spec h hr
  obtain ⟨-, hbalances⟩ := transfer_balances h hr
  have hbal := transfer_balanceOf h hread htoken hne hbalances
  obtain ⟨e, he, hay⟩ := hcan.keyed
  have hfrom : s.hasAccount tx.fromId := (h.hasAccount_iff _).2 (by rwa [Ledger.entry_of_some he])
  have hmem : tx.toId ∈ lv.accounts := by
    obtain ⟨f, hf⟩ := hcan.receiver
    exact Finset.mem_range.2 (h.lt hf)
  have hfunds : tx.amount.toFr.val ≤ (s.balanceOf tx.fromId tx.tokenId).val := by
    rw [← h.balance_of_readable (hread _) htoken]
    exact hcan.funds
  -- No sum wraps around: all there is of the token fits in the field.
  have hentries : enterAll B.balances
      (Bookkeeping.move tx.fromId tx.toId tx.tokenId tx.amount.toNat) =
      some (read ZMod.val s'.balanceOf) := by
    rw [hB.balances] at hbound ⊢
    rw [hbal, ← U128.toFr_val]
    exact Bookkeeping.enterAll_move_val (Finset.mem_range.2 (h.lt he)) hmem hne hfunds hbound
  have hregister : ∀ k ∈ tx.l2key, B.key tx.toId = none := by
    intro k hk
    refine (hB.key_eq_none_iff _).2 fun hhas => ?_
    rw [hnew.2 hhas] at hk
    cases hk
  have hallows : (B.withKey tx.toId tx.l2key).Allows
      (.transfer tx.fromId tx.toId tx.tokenId tx.amount.toNat) := by
    refine ⟨hne, ?_, Books.withKey_key_ne_none fun hnone => ?_⟩
    · rw [B.withKey_key_of_ne hne]
      exact (hB.key_eq_none_iff _).not.2 (not_not.2 hfrom)
    · exact (hB.key_eq_none_iff _).not.2 (not_not.2 (hnew.1 hnone))
  have h' := htrans.ne hne
  refine ⟨(B.withKey tx.toId tx.l2key).record
    (.transfer tx.fromId tx.toId tx.tokenId tx.amount.toNat) (read ZMod.val s'.balanceOf), ?_, ?_,
    fun b => ?_, rfl⟩
  · rw [Op.bookings, Books.bookAll_register hregister, Books.bookAll_cons,
      Books.book_of hallows hentries]
    rfl
  · -- The keys: only the one of the receiver may be new.
    funext b
    change (B.withKey tx.toId tx.l2key).key b = _
    rw [h'.registered_eq, Ledger.entry_set, Ledger.entry_set]
    rcases eq_or_ne b tx.toId with rfl | hto
    · rw [if_pos rfl, Entry.registered_setNewL2Addr hkey]
      cases tx.l2key with
      | none => exact (congrFun hB.key _).trans (h.registered_eq _)
      | some k => exact Function.update_self _ _ _
    · rw [if_neg hto, B.withKey_key_of_ne hto, hB.key, h.registered_eq]
      split
      · next hb => rw [hb]; rfl
      · rfl
  · -- The nonces: only the one of the sender is increased.
    change _ = ((Function.update B.nonce tx.fromId (B.nonce tx.fromId + 1) b : ℕ) : Fr)
    rw [GlobalState.getAccountNonce, h'.getAccount_eq, Ledger.entry_set, Ledger.entry_set,
      Function.update_apply]
    have hnonce := fun c => (hB.nonce c).symm.trans
      (congrArg AccountState.nonce (h.getAccount_eq c))
    rcases eq_or_ne b tx.toId with rfl | hto
    · rw [if_pos rfl, if_neg hne.symm, hnonce]
      cases tx.l2key <;> rfl
    · rw [if_neg hto]
      split
      · rw [Nat.cast_add, Nat.cast_one, hnonce]
        rfl
      · exact (hnonce b).symm

/-- The balances after a trade of two tokens. -/
theorem trade_balanceOf (h : Shows s L) {tx : FullSpotTradeTx} {T : Trade lv} {e1' e2' : Entry lv}
    (hT : T.Accepted s L tx) (ht : L.Traded T tx.trade e1' e2' s')
    (htoken1 : tx.trade.tokenId1to2 < 2 ^ lv.balanceLevels)
    (htoken2 : tx.trade.tokenId2to1 < 2 ^ lv.balanceLevels)
    (hne : tx.trade.tokenId1to2 ≠ tx.trade.tokenId2to1) : s'.balanceOf =
      put (put (put (put s.balanceOf
        tx.trade.order1AccountId tx.trade.tokenId1to2
          (s.balanceOf tx.trade.order1AccountId tx.trade.tokenId1to2 - tx.trade.amount1to2))
        tx.trade.order2AccountId tx.trade.tokenId1to2
          (s.balanceOf tx.trade.order2AccountId tx.trade.tokenId1to2 + tx.trade.amount1to2))
        tx.trade.order2AccountId tx.trade.tokenId2to1
          (s.balanceOf tx.trade.order2AccountId tx.trade.tokenId2to1 - tx.trade.amount2to1))
        tx.trade.order1AccountId tx.trade.tokenId2to1
          (s.balanceOf tx.trade.order1AccountId tx.trade.tokenId2to1 + tx.trade.amount2to1) := by
  have hacc := hT.ne
  funext a token
  simp only [Bookkeeping.put_apply]
  by_cases hlt : token < 2 ^ lv.balanceLevels
  · rw [trade_balances h hT ht hne a hlt]
    grind
  · have hother1 : token ≠ tx.trade.tokenId1to2 := fun hc => hlt (hc ▸ htoken1)
    have hother2 : token ≠ tx.trade.tokenId2to1 := fun hc => hlt (hc ▸ htoken2)
    simp only [hother1, hother2, and_false, if_false]
    rw [s'.balanceOf_of_le a hlt, s.balanceOf_of_le a hlt]

/-- A trade is entered: what one account gives, the other gets. -/
theorem fullSpotTrade_keeps (h : Shows s L) (hB : s.Keeps B) {schedule : Shuffle Task}
    {tx : FullSpotTradeTx} {offset : Option ℤ} {raw : RawTx}
    (hop : (Op.fullSpotTrade schedule tx offset).Bookable s)
    (hr : s.fullSpotTrade schedule tx offset = .ok (raw, s'))
    (hbound : ∀ t, total lv.accounts B.balances t < Fr.modulus) :
    ∃ B', B.bookAll (Op.fullSpotTrade schedule tx offset).bookings = some B' ∧ s'.Keeps B' := by
  obtain ⟨htoken1, htoken2, hne⟩ := hop
  obtain ⟨T, e1', e2', hT, ht⟩ := fullSpotTrade_traded h hr
  have hbal := trade_balanceOf h hT ht htoken1 htoken2 hne
  have hmem1 : tx.trade.order1AccountId ∈ lv.accounts := Finset.mem_range.2 (h.lt hT.entry1)
  have hmem2 : tx.trade.order2AccountId ∈ lv.accounts := Finset.mem_range.2 (h.lt hT.entry2)
  have hfunds1 := hT.funds1.le
  rw [Entry.balance_of_keyed hT.keyed1, ← Ledger.entry_of_some hT.entry1,
    ← h.balanceOf_eq _ htoken1] at hfunds1
  have hfunds2 := hT.funds2.le
  rw [Entry.balance_of_keyed hT.keyed2, ← Ledger.entry_of_some hT.entry2,
    ← h.balanceOf_eq _ htoken2] at hfunds2
  -- the second token is moved from the balances left by the first one
  have hfirst := Bookkeeping.enterAll_move_val (S := lv.accounts) hmem1 hmem2 hT.ne hfunds1
    (by rw [← hB.balances]; exact hbound _)
  rw [← hB.balances] at hfirst
  have hsecond := Bookkeeping.enterAll_move_val (S := lv.accounts) (v := tx.trade.amount2to1)
    (t := tx.trade.tokenId2to1) (r := put (put s.balanceOf
        tx.trade.order1AccountId tx.trade.tokenId1to2
          (s.balanceOf tx.trade.order1AccountId tx.trade.tokenId1to2 - tx.trade.amount1to2))
        tx.trade.order2AccountId tx.trade.tokenId1to2
          (s.balanceOf tx.trade.order2AccountId tx.trade.tokenId1to2 + tx.trade.amount1to2))
    hmem2 hmem1 hT.ne.symm (by simpa [Bookkeeping.put_apply, hne.symm] using hfunds2)
    (by rw [Bookkeeping.total_move hfirst hmem1 hmem2]; exact hbound _)
  have hentries : enterAll B.balances tx.trade.booking.entries =
      some (read ZMod.val s'.balanceOf) := by
    rw [SpotTradeTx.booking, Books.Booking.entries, Bookkeeping.enterAll_append, hfirst,
      Option.bind_some, hsecond, hbal]
    simp only [Bookkeeping.put_apply, hne.symm, and_false, if_false]
  have hkeyed1 : B.key tx.trade.order1AccountId ≠ none :=
    (hB.key_eq_none_iff _).not.2 (not_not.2 ((h.hasAccount_iff _).2
      (by rw [Ledger.entry_of_some hT.entry1]; exact hT.keyed1)))
  have hkeyed2 : B.key tx.trade.order2AccountId ≠ none :=
    (hB.key_eq_none_iff _).not.2 (not_not.2 ((h.hasAccount_iff _).2
      (by rw [Ledger.entry_of_some hT.entry2]; exact hT.keyed2)))
  have hsame := ht.accounts_eq hT h
  have hallows : B.Allows tx.trade.booking := ⟨hT.ne, hne, hkeyed1, hkeyed2⟩
  refine ⟨B.record tx.trade.booking (read ZMod.val s'.balanceOf), ?_, ?_, fun b => ?_, rfl⟩
  · rw [Op.bookings, Books.bookAll_cons, Books.book_of hallows hentries]
    rfl
  · change B.key = _
    rw [hB.key]
    funext b
    obtain ⟨-, hsign, hay⟩ := hsame b
    rw [GlobalState.registered, GlobalState.registered, GlobalState.keyOf, GlobalState.keyOf,
      hsign, hay]
    simp only [GlobalState.hasAccount, hay]
    rfl
  · change _ = (B.nonce b : Fr)
    rw [← hB.nonce]
    exact (hsame b).1

/-! ## Runs -/

/-- What is deposited of a token from outside. -/
def Books.Booking.deposits (token : ℕ) : Books.Booking → ℕ
  | .deposit _ t n => if t = token then n else 0
  | _ => 0

/-- What is withdrawn of a token to the outside. -/
def Books.Booking.withdrawals (token : ℕ) : Books.Booking → ℕ
  | .withdraw _ t n => if t = token then n else 0
  | _ => 0

/-- All that has been deposited of a token. -/
def Books.deposited (token : ℕ) (ks : List Booking) : ℕ := (ks.map (Booking.deposits token)).sum

/-- All that has been withdrawn of a token. -/
def Books.withdrawn (token : ℕ) (ks : List Booking) : ℕ :=
  (ks.map (Booking.withdrawals token)).sum

omit [FluidexCommon] in
/-- Only deposits and withdrawals are not balanced. -/
theorem Books.Booking.balanced (token : ℕ) (k : Booking) :
    Bookkeeping.credited token k.entries + k.withdrawals token =
      Bookkeeping.debited token k.entries + k.deposits token := by
  cases k <;> simp only [entries, deposits, withdrawals, Bookkeeping.move, Bookkeeping.credited,
    Bookkeeping.debited, List.map_cons, List.map_nil, List.cons_append, List.nil_append,
    List.sum_cons, List.sum_nil, Bookkeeping.Entry.given, Bookkeeping.Entry.taken] <;> omega

omit [FluidexCommon] in
/-- What comes in has been deposited, and what goes out has been withdrawn. -/
theorem Books.balanced_all (token : ℕ) (ks : List Booking) :
    Bookkeeping.credited token (ks.flatMap Booking.entries) + withdrawn token ks =
      Bookkeeping.debited token (ks.flatMap Booking.entries) + deposited token ks := by
  induction ks with
  | nil => rfl
  | cons k ks ih =>
    have hk := k.balanced token
    rw [List.flatMap_cons, Bookkeeping.credited_append, Bookkeeping.debited_append, withdrawn,
      deposited, List.map_cons, List.map_cons, List.sum_cons, List.sum_cons]
    rw [withdrawn, deposited] at ih
    omega

omit [FluidexCommon] in
/-- A key is never forgotten. -/
theorem Books.key_of_book (h : B.book k = some B') {b : ℕ} (hb : B.key b ≠ none) :
    B'.key b ≠ none := by
  obtain ⟨-, balances, -, rfl⟩ := book_eq_some_iff.1 h
  cases k with
  | register c key =>
    change Function.update B.key c (some key) b ≠ none
    rw [Function.update_apply]
    split
    · exact Option.some_ne_none _
    · exact hb
  | deposit _ _ _ | withdraw _ _ _ | transfer _ _ _ _ | trade _ _ _ _ _ _ => exact hb

omit [FluidexCommon] in
/-- The entries of a booking are about accounts that have a key. -/
theorem Books.key_of_mem_entries (h : B.Allows k) {e : Bookkeeping.Entry ℕ ℕ}
    (he : e ∈ k.entries) : B.key e.account ≠ none := by
  cases k with
  | register c key => cases he
  | deposit c t n | withdraw c t n =>
    obtain rfl := List.mem_singleton.1 he
    exact h
  | transfer c d t n =>
    obtain ⟨-, hc, hd⟩ := h
    rcases List.mem_pair.1 he with rfl | rfl
    · exact hc
    · exact hd
  | trade c d t u n m =>
    obtain ⟨-, -, hc, hd⟩ := h
    rcases List.mem_append.1 he with he | he <;> rcases List.mem_pair.1 he with rfl | rfl
    · exact hc
    · exact hd
    · exact hd
    · exact hc

omit [FluidexCommon] in
/-- Amounts are held and moved by accounts that have a key in the end. -/
theorem Books.key_of_bookAll {ks : List Booking} (h : B.bookAll ks = some B') :
    (∀ b, B.key b ≠ none → B'.key b ≠ none) ∧
      ∀ e ∈ ks.flatMap Booking.entries, B'.key e.account ≠ none := by
  induction ks generalizing B with
  | nil =>
    obtain rfl := Option.some.inj h
    exact ⟨fun _ hb => hb, fun e he => (by cases he)⟩
  | cons k ks ih =>
    obtain ⟨B₁, hk, hks⟩ := Option.bind_eq_some_iff.1 h
    obtain ⟨hkept, hrest⟩ := ih hks
    refine ⟨fun b hb => hkept b (key_of_book hk hb), fun e he => ?_⟩
    rcases List.mem_append.1 (List.flatMap_cons ▸ he) with he | he
    · exact hkept _ (key_of_book hk (key_of_mem_entries (book_eq_some_iff.1 hk).1 he))
    · exact hrest e he

/-- The total of a token changes by what comes from outside and what goes there. -/
theorem Holds.total_bookAll (h : Holds s' L) (hB : s'.Keeps B') {ks : List Books.Booking}
    (hks : B.bookAll ks = some B') (token : ℕ) :
    total lv.accounts B'.balances token + Books.withdrawn token ks =
      total lv.accounts B.balances token + Books.deposited token ks := by
  have hmem : ∀ e ∈ ks.flatMap Books.Booking.entries, e.account ∈ lv.accounts := by
    intro e he
    have hkey := (Books.key_of_bookAll hks).2 e he
    rw [ne_eq, hB.key_eq_none_iff, not_not] at hkey
    obtain ⟨f, hf, -⟩ := h.exists_of_hasAccount hkey
    exact Finset.mem_range.2 (h.lt hf)
  have htotal := Bookkeeping.enterAll_total (Books.enterAll_of_bookAll hks) hmem token
  have hbalanced := Books.balanced_all token ks
  omega

/-- What a step books: the bookings of a transaction that is accepted, i.e., emitted. -/
def GlobalState.booked (s : GlobalState lv) (op : Op) : List Books.Booking :=
  match s.apply op with
  | .ok (some _, _) => op.bookings
  | _ => []

/-- What emits a transaction is booked. -/
theorem GlobalState.booked_some {op : Op} {raw : RawTx} (hr : s.apply op = .ok (some raw, s')) :
    s.booked op = op.bookings := by
  rw [booked, hr]

/-- What emits none, as it was refused or only prepares a state, is not booked. -/
theorem GlobalState.booked_none {op : Op} (hr : s.apply op = .ok (none, s')) :
    s.booked op = [] := by
  rw [booked, hr]

/-- What is booked by the steps of a run. -/
def Node.bookings : Node lv → List Op → List Books.Booking
  | _, [] => []
  | n, op :: ops => n.state.booked op ++
    match n.step op with
    | .ok n' => n'.bookings ops
    | .error _ => []

/-- An operation that is bookable does its bookings. -/
theorem apply_keeps (h : Shows s L) (hread : ∀ a, (L.entry a).Readable) (hB : s.Keeps B) {op : Op}
    (hop : op.Bookable s) {raw : Option RawTx} (hr : s.apply op = .ok (raw, s'))
    (hbound : ∀ t, total lv.accounts B.balances t + Books.deposited t (s.booked op) < Fr.modulus) :
    ∃ B', B.bookAll (s.booked op) = some B' ∧ s'.Keeps B' := by
  have htotal t : total lv.accounts B.balances t < Fr.modulus :=
    (Nat.le_add_right _ _).trans_lt (hbound t)
  cases GlobalState.applied hr with
  | createNewAccount hc =>
    rw [GlobalState.booked_none hr]
    refine ⟨B, rfl, ?_⟩
    -- The new account has neither a key nor a balance, as if it did not exist.
    rcases createNewAccount_spec h hc with rfl | ⟨b, hnone, -, h'⟩
    · exact hB
    · refine h.keeps_set h'.toHolds hB ?_ ?_ ?_ <;> rw [Ledger.entry, hnone] <;> rfl
  | setAccountL2Addr _ | setAccountNonce _ | setTokenBalance _ => exact hop.elim
  | setAccountOrder hc =>
    rw [GlobalState.booked_none hr]
    obtain ⟨e, t, he, -, -, h'⟩ := setAccountOrder_spec h hc
    refine ⟨B, rfl, h.keeps_set h'.toHolds hB ?_ ?_ ?_⟩ <;> rw [Ledger.entry_of_some he] <;> rfl
  | @keyUpdate tx offset r _ hc =>
    cases r with
    | error e =>
      rw [GlobalState.booked_none hr]
      rcases keyUpdate_spec h hc with ⟨-, rfl⟩ | ⟨-, t, -, -, hok⟩
      · exact ⟨B, rfl, hB⟩
      · cases hok
    | ok raw =>
      rw [GlobalState.booked_some hr]
      exact keyUpdate_keeps h hread hB hop hc rfl
  | @deposit tx offset r _ hc =>
    cases r with
    | error e =>
      rw [GlobalState.booked_none hr]
      rcases deposit_spec h hc with ⟨-, rfl⟩ | ⟨-, t, -, -, hok⟩
      · exact ⟨B, rfl, hB⟩
      · cases hok
    | ok raw =>
      rw [GlobalState.booked_some hr] at hbound ⊢
      refine deposit_keeps h hread hB hop hc rfl ?_
      -- Of the bound, what the deposit itself adds to the total.
      have hdeposit := hbound tx.tokenId
      rw [Op.bookings, Books.deposited, List.map_append, List.sum_append, List.map_singleton,
        List.sum_singleton, Books.Booking.deposits, if_pos rfl] at hdeposit
      omega
  | transfer hc =>
    rw [GlobalState.booked_some hr]
    exact transfer_keeps h hread hB hop hc (htotal _)
  | withdraw hc =>
    rw [GlobalState.booked_some hr]
    exact withdraw_keeps h hB hop hc
  | fullSpotTrade hc =>
    rw [GlobalState.booked_some hr]
    exact fullSpotTrade_keeps h hB hop hc htotal
  | cancelOrder hc =>
    rw [GlobalState.booked_none hr]
    obtain ⟨e, pos, order, he, -, -, h'⟩ := cancelOrder_spec h hc
    refine ⟨B, rfl, h.keeps_set h'.toHolds hB ?_ ?_ ?_⟩ <;> rw [Ledger.entry_of_some he] <;> rfl
  | nop =>
    rw [GlobalState.booked_some hr]
    exact ⟨B, rfl, hB⟩
  | flushWithNop | popAllBlocks =>
    rw [GlobalState.booked_none hr]
    exact ⟨B, rfl, hB⟩

omit [FluidexCommon] in
theorem Books.deposited_append (token : ℕ) (ks ks' : List Booking) :
    deposited token (ks ++ ks') = deposited token ks + deposited token ks' := by
  rw [deposited, List.map_append, List.sum_append]
  rfl

/-- A run from a state that keeps the books. What is there and what is deposited until the end
    stays below the order of the field. -/
theorem bookAll_of_run {n n' : Node lv} {ops : List Op} (h : Shows n.state L)
    (hread : ∀ a, (L.entry a).Readable) (hB : n.state.Keeps B)
    (hops : Exec.Along Node.step (fun m op => op.Bookable m.state) n ops)
    (hrun : Exec.run Node.step n ops = .ok n')
    (hbound : ∀ t, total lv.accounts B.balances t + Books.deposited t (n.bookings ops) <
      Fr.modulus) :
    ∃ B', B.bookAll (n.bookings ops) = some B' ∧ n'.state.Keeps B' := by
  induction ops generalizing n L B with
  | nil =>
    obtain rfl := Exec.run_nil.1 hrun
    exact ⟨B, rfl, hB⟩
  | cons op ops ih =>
    obtain ⟨n₁, hst, hrun⟩ := Exec.run_cons.1 hrun
    obtain ⟨hop, hops⟩ := hops
    obtain ⟨raw, hr⟩ := Node.step_state hst
    have hbookings : n.bookings (op :: ops) = n.state.booked op ++ n₁.bookings ops := by
      rw [Node.bookings, hst]
    -- What the first operation deposits is part of the total from then on.
    simp only [hbookings, Books.deposited_append] at hbound
    obtain ⟨B₁, hbook, hB₁⟩ := apply_keeps h hread hB hop hr fun t => by
      have := hbound t
      omega
    obtain ⟨L₁, h₁, hread₁⟩ := apply_readable h hread hop.keepsReads hr
    have htotal := h₁.total_bookAll hB₁ hbook
    obtain ⟨B', hrest, hB'⟩ := ih h₁ hread₁ hB₁ (hops _ hst) hrun fun t => by
      have := hbound t
      have := htotal t
      omega
    refine ⟨B', ?_, hB'⟩
    rw [hbookings, Books.bookAll_append, hbook]
    exact hrest

/-- A new state keeps the empty books. -/
theorem keeps_new (lv : Levels) : (GlobalState.new lv).Keeps .empty where
  key := by
    funext a
    rw [(shows_new lv).registered_eq]
    rfl
  nonce a := by
    rw [GlobalState.getAccountNonce, (shows_new lv).getAccount_eq]
    exact Nat.cast_zero.symm
  balances := by
    funext a t
    change 0 = ((GlobalState.new lv).balanceOf a t).val
    by_cases ht : t < 2 ^ lv.balanceLevels
    · rw [(shows_new lv).balanceOf_eq a ht]
      exact (congrArg ZMod.val (getLeaf_create lv _ ht)).symm
    · rw [GlobalState.balanceOf_of_le _ a ht]
      rfl

omit [FluidexCommon] in
/-- At first, there is nothing of any token. -/
theorem Books.total_empty (lv : Levels) (token : ℕ) :
    total lv.accounts Books.empty.balances token = 0 :=
  Finset.sum_const_zero

omit [FluidexCommon] in
/-- An operation deposits less than `2 ^ 128`. -/
theorem Op.deposited_bookings (op : Op) (token : ℕ) :
    Books.deposited token op.bookings < 2 ^ 128 := by
  have hregister (a : ℕ) (l2key : Option L2Key) : Books.deposited token
      (l2key.map fun k => Books.Booking.register a (k.sign, k.ay)).toList = 0 := by
    cases l2key <;> rfl
  cases op with
  | deposit tx _ =>
    rw [bookings, Books.deposited_append, hregister, Nat.zero_add, Books.deposited,
      List.map_singleton, List.sum_singleton, Books.Booking.deposits]
    split
    · exact tx.amount.isLt
    · exact Nat.two_pow_pos _
  | transfer _ tx _ =>
    rw [bookings, Books.deposited_append, hregister]
    exact Nat.two_pow_pos _
  | _ => exact Nat.two_pow_pos _

/-- The amounts have 128 bits, so a run has to be long to deposit as much as the field holds. -/
theorem Node.deposited_bookings_le (n : Node lv) (ops : List Op) (token : ℕ) :
    Books.deposited token (n.bookings ops) ≤ ops.length * 2 ^ 128 := by
  induction ops generalizing n with
  | nil => exact Nat.zero_le _
  | cons op ops ih =>
    have hbooked : Books.deposited token (n.state.booked op) ≤ 2 ^ 128 := by
      rw [GlobalState.booked]
      split
      · exact (op.deposited_bookings token).le
      · exact Nat.zero_le _
    rw [bookings, Books.deposited_append, List.length_cons]
    split
    · next n' _ =>
      have := ih n'
      omega
    · rw [Books.deposited, Books.deposited, List.map_nil, List.sum_nil]
      rw [Books.deposited] at hbooked
      omega

end Keeping

/-- Three accounts that get their keys in three ways, a trade of two orders, and a withdrawal. -/
def bookedOps : List Op :=
  [.keyUpdate ⟨0, ⟨1, 1, 5⟩⟩ none, .deposit ⟨0, 1, 90, none⟩ none,
    .deposit ⟨1, 0, 50, some ⟨2, 0, 6⟩⟩ none,
    .fullSpotTrade .id ⟨⟨0, 1, 1, 0, 5, 6, 3, 4⟩,
      some { Order.default with orderId := 3, tokenSell := 1, totalSell := 10, totalBuy := 12 },
      some { Order.default with accountId := 1, orderId := 4, tokenBuy := 1, totalBuy := 5,
                                totalSell := 6 }⟩ none,
    .createNewAccount 1, .transfer .id ⟨0, 2, 1, 20, 0, .default, some ⟨3, 1, 7⟩⟩ none,
    .withdraw ⟨1, 0, 10, 0, 44, .default⟩ none]

/-- What is booked, in the books. -/
def bookedOpsBookings : List Books.Booking :=
  [.register 0 (1, 5), .deposit 0 1 90, .register 1 (0, 6), .deposit 1 0 50,
    .trade 0 1 1 0 5 6, .register 2 (1, 7), .transfer 0 2 1 20, .withdraw 1 0 10]

end Rollup
