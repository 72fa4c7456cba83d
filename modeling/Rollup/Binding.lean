import Rollup.Commitments
import Rollup.Keys
import Rollup.Openings
import Rollup.Orders

/-!
# What the root binds

The root is all that leaves the state manager of its state: what a proof shows, it shows of the
root. So the root has to say what the accounts are, i.e., it must not be that of two states that
differ (`roots_eq_iff`). Two states have the same root exactly if in both every account has the
same key, nonce, balances and orders in its slots, as far as they are hashed
(`GlobalState.SameCommitted`), unless the hash has a collision among what the trees of the two
states hash (`GlobalState.hashInputs`).

The fields that are packed before they are hashed have to be in range: nonces are, unless they
are set or there are more transactions than could ever be sent, and the others are if they are
so in the operations (`Op.Packs`).
-/

namespace Rollup

section Binding

variable [FluidexCommon] {lv : Levels} {s s' : GlobalState lv} {L L' : Ledger lv}

/-! ## What is hashed -/

/-- The lists of children that the parents are the hashes of. -/
def Tree.hashInputs {h : ℕ} (t : Tree h) : List (List Fr) :=
  (Merkle.children t.getValue h).map fun p => [p.1, p.2]

/-- The hash has no collision among the lists. -/
def NoCollision (inputs : List (List Fr)) : Prop :=
  ∀ l ∈ inputs, ∀ l' ∈ inputs, Fr.hash l = Fr.hash l' → l = l'

instance (inputs : List (List Fr)) : Decidable (NoCollision inputs) :=
  inferInstanceAs (Decidable (∀ l ∈ inputs, ∀ l' ∈ inputs, Fr.hash l = Fr.hash l' → l = l'))

theorem NoCollision.mono {inputs inputs' : List (List Fr)} (h : NoCollision inputs')
    (hsub : inputs ⊆ inputs') : NoCollision inputs :=
  fun l hl l' hl' => h l (hsub hl) l' (hsub hl')

/-- The root only depends on the leaves. -/
theorem Tree.root_congr {h : ℕ} {t t' : Tree h} (ht : t.IsMerkle) (ht' : t'.IsMerkle)
    (hleaf : ∀ i < 2 ^ h, t.getLeaf i = t'.getLeaf i) : t.getRoot = t'.getRoot := by
  rw [ht.represents.getRoot, (ht'.represents.congr fun i hi => (hleaf i hi).symm).getRoot]

/-- Trees have the same root exactly if they have the same leaves. -/
theorem Tree.root_eq_iff {h : ℕ} {t t' : Tree h} (ht : t.IsMerkle) (ht' : t'.IsMerkle)
    (hfree : NoCollision (t.hashInputs ++ t'.hashInputs)) :
    t.getRoot = t'.getRoot ↔ ∀ i < 2 ^ h, t.getLeaf i = t'.getLeaf i := by
  refine ⟨fun hroot i hi => ?_, Tree.root_congr ht ht'⟩
  refine Merkle.eq_of_root_eq ht ht' (fun a ha b hb hab => ?_) hroot 0 (Nat.zero_le h) i hi
  have hlist := hfree [a.1, a.2] (List.mem_append_left _ (List.mem_map_of_mem ha)) [b.1, b.2]
    (List.mem_append_right _ (List.mem_map_of_mem hb)) hab
  simp only [List.cons.injEq, and_true] at hlist
  exact Prod.ext hlist.1 hlist.2

/-- What is hashed for an account. -/
def Entry.hashInputs (e : Entry lv) : List (List Fr) :=
  e.state.hashInputs :: (e.balanceTree.hashInputs ++ e.orderTree.hashInputs ++
    (List.range (2 ^ lv.orderLevels)).map fun pos => (e.orderAt pos).hashInputs)

namespace GlobalState

/-- The balances of an account, none of them set if it does not exist. -/
def balanceTreeOf (s : GlobalState lv) (accountId : ℕ) : Tree lv.balanceLevels :=
  (s.balanceTrees.lookup accountId).getD lv.emptyBalanceTree

/-- The slots of an account, all empty if it does not exist. -/
def orderTreeOf (s : GlobalState lv) (accountId : ℕ) : Tree lv.orderLevels :=
  (s.orderTrees.lookup accountId).getD lv.emptyOrderTree

/-- The order in a slot of an account, the default one if there is none. -/
def orderAt (s : GlobalState lv) (accountId orderPos : ℕ) : Order :=
  ((s.orderStates.lookup accountId).bind fun orders => orders.lookup orderPos).getD Order.default

/-- What is hashed for an account: its state, its trees and its orders. -/
def hashInputsOf (s : GlobalState lv) (accountId : ℕ) : List (List Fr) :=
  (s.getAccount accountId).hashInputs ::
    ((s.balanceTreeOf accountId).hashInputs ++ (s.orderTreeOf accountId).hashInputs ++
      (List.range (2 ^ lv.orderLevels)).map fun pos => (s.orderAt accountId pos).hashInputs)

/-- All that is hashed for the root. -/
def hashInputs (s : GlobalState lv) : List (List Fr) :=
  s.accountTree.hashInputs ++ (List.range (2 ^ lv.accountLevels)).flatMap s.hashInputsOf

/-- The states are the same, as far as they are hashed. -/
structure SameCommitted (s s' : GlobalState lv) : Prop where
  key : s.keyOf = s'.keyOf
  nonce : ∀ a, s.getAccountNonce a = s'.getAccountNonce a
  balances : s.balanceOf = s'.balanceOf
  orders : ∀ a, ∀ pos < 2 ^ lv.orderLevels, (s.orderAt a pos).Agrees (s'.orderAt a pos)

end GlobalState

namespace Holds

variable (h : Holds s L)
include h

theorem balanceTreeOf_eq (a : ℕ) : s.balanceTreeOf a = (L.entry a).balanceTree := by
  rw [GlobalState.balanceTreeOf, h.balanceTrees, Ledger.entry]
  cases L a <;> rfl

theorem orderTreeOf_eq (a : ℕ) : s.orderTreeOf a = (L.entry a).orderTree := by
  rw [GlobalState.orderTreeOf, h.orderTrees, Ledger.entry]
  cases L a <;> rfl

theorem orderAt_eq (a pos : ℕ) : s.orderAt a pos = (L.entry a).orderAt pos := by
  rw [GlobalState.orderAt, h.orderStates, Ledger.entry]
  cases L a <;> rfl

/-- What is hashed for an account is read from its entry. -/
theorem hashInputsOf_eq (a : ℕ) : s.hashInputsOf a = (L.entry a).hashInputs := by
  simp only [GlobalState.hashInputsOf, Entry.hashInputs, h.getAccount_eq, h.balanceTreeOf_eq,
    h.orderTreeOf_eq, h.orderAt_eq]

end Holds

/-! ## What is packed -/

/-- What is packed is in range; `k` bounds the number of transactions. -/
structure Entry.Packs (k : ℕ) (e : Entry lv) : Prop where
  nonce : e.state.nonce.val < 2 ^ 39 + k
  sign : e.state.sign = 0 ∨ e.state.sign = 1
  orders : ∀ pos, (e.orderAt pos).InRange

/-- The numbers in the operation have the widths in which they are packed. -/
def Op.Packs : Op → Prop
  | .setAccountL2Addr _ sign _ => sign = 0 ∨ sign = 1
  | .setAccountNonce _ nonce => nonce.val < 2 ^ 39
  | .setAccountOrder _ _ order => order.InRange
  | .keyUpdate tx _ => tx.l2key.sign = 0 ∨ tx.l2key.sign = 1
  | .deposit tx _ => ∀ k ∈ tx.l2key, k.sign = 0 ∨ k.sign = 1
  | .transfer _ tx _ => ∀ k ∈ tx.l2key, k.sign = 0 ∨ k.sign = 1
  | .fullSpotTrade _ tx _ =>
    (∀ order ∈ tx.makerOrder, order.InRange) ∧ ∀ order ∈ tx.takerOrder, order.InRange
  | _ => True

namespace Entry.Packs

variable {k : ℕ} {e e' : Entry lv}

omit [FluidexCommon] in
/-- After so few operations, the nonce and the sign have not run into each other. -/
theorem inRange (h : e.Packs k) (hk : k ≤ 2 ^ 39) : e.state.InRange where
  nonce := h.nonce.trans_le (by omega)
  sign := h.sign

theorem create (lv : Levels) (n : ℕ) : (Entry.create lv n).Packs 0 where
  nonce := Nat.two_pow_pos _
  sign := .inl rfl
  orders _ := ⟨Nat.two_pow_pos _, Nat.two_pow_pos _, Nat.two_pow_pos _⟩

omit [FluidexCommon] in
/-- More operations may have been done. -/
theorem mono (h : e.Packs k) {k' : ℕ} (hk : k ≤ k') : e.Packs k' :=
  ⟨h.nonce.trans_le (Nat.add_le_add_left hk _), h.sign, h.orders⟩

omit [FluidexCommon] in
/-- The nonce may have been increased by one. -/
theorem congr (h : e.Packs k) (hn : e'.state.nonce = e.state.nonce ∨
    e'.state.nonce = e.state.nonce + 1) (hs : e'.state.sign = e.state.sign)
    (ho : e'.orders = e.orders) : e'.Packs (k + 1) where
  nonce := by
    have hnonce := h.nonce
    rcases hn with hn | hn
    · rw [hn]
      omega
    · have hle := ZMod.val_add_le e.state.nonce 1
      rw [ZMod.val_one''] at hle
      · rw [hn]
        omega
      · decide
  sign := hs ▸ h.sign
  orders pos := by
    rw [orderAt, ho]
    exact h.orders pos

omit [FluidexCommon] in
/-- The sign of a key is a bit. -/
theorem setNewL2Addr (h : e.Packs k) {l2key : Option L2Key}
    (hkey : ∀ key ∈ l2key, key.sign = 0 ∨ key.sign = 1) : (e.setNewL2Addr l2key).Packs k := by
  cases l2key with
  | none => exact h
  | some key => exact ⟨h.nonce, hkey key rfl, h.orders⟩

omit [FluidexCommon] in
/-- An order in range may be stored. -/
theorem insert (h : e.Packs k) {pos : ℕ} {order : Order} (horder : order.InRange)
    (hn : e'.state.nonce = e.state.nonce) (hs : e'.state.sign = e.state.sign)
    (ho : e'.orders = e.orders.insert pos order) : e'.Packs (k + 1) where
  nonce := hn ▸ h.nonce.trans_le (Nat.le_succ _)
  sign := hs ▸ h.sign
  orders pos' := by
    rw [orderAt, ho, lookup_insert_ite]
    split
    · exact horder
    · exact h.orders pos'

/-- A trade stores an order in range. -/
theorem trades (h : e.Packs k) {order : Order} (horder : order.InRange) {pos : ℕ} {sell buy : Fr}
    {updates : List (ℕ × Fr)} (ht : e.Trades order pos sell buy updates e') : e'.Packs (k + 1) := by
  have hstate := ht.state_eq
  have htraded : (order.tradeWith sell buy).InRange :=
    ⟨horder.orderId, horder.tokenBuy, horder.tokenSell⟩
  exact h.insert htraded (by rw [hstate]) (by rw [hstate]) ht.orders_eq

end Entry.Packs

/-- An order that a trade takes is in range. -/
theorem Ledger.Takes.inRange {supplied : Option Order} {a orderId k : ℕ} {order : Order}
    (h : L.Takes supplied a orderId order) (hL : ∀ a, (L.entry a).Packs k)
    (hs : ∀ o ∈ supplied, o.InRange) : order.InRange := by
  cases supplied with
  | some o =>
    obtain ⟨rfl, -⟩ := h
    exact hs order rfl
  | none =>
    obtain ⟨e, pos, he, -, rfl⟩ := h
    rw [← Ledger.entry_of_some he]
    exact (hL a).orders pos

/-- A transfer increases a nonce by one. -/
theorem transfer_packs (h : Shows s L) {k : ℕ} (hL : ∀ a, (L.entry a).Packs k)
    {schedule : Shuffle Task} {tx : TransferTx} {offset : Option ℤ} {rawTx : RawTx}
    (hop : (Op.transfer schedule tx offset).Packs)
    (hr : s.transfer schedule tx offset = .ok (rawTx, s')) :
    ∃ L', Shows s' L' ∧ ∀ a, (L'.entry a).Packs (k + 1) := by
  have hmono a := (hL a).mono (Nat.le_succ k)
  obtain ⟨-, htrans, -⟩ := transfer_spec h hr
  rcases eq_or_ne tx.fromId tx.toId with heq | hne
  · obtain ⟨updates, -, h'⟩ := htrans.eq heq
    have hto : (((L.entry tx.toId).putBalances updates).setNonce
        ((L.entry tx.toId).state.nonce + 1)).commit.Packs (k + 1) :=
      (hL tx.toId).congr (.inr rfl) rfl rfl
    exact ⟨_, h', Ledger.forall_set hmono (hto.setNewL2Addr hop) _⟩
  · have hfrom : ((L.entry tx.fromId).send tx).Packs (k + 1) :=
      (hL tx.fromId).congr (.inr rfl) rfl rfl
    have hto : ((L.entry tx.toId).receive tx).Packs (k + 1) :=
      (hL tx.toId).congr (.inl rfl) rfl rfl
    exact ⟨_, htrans.ne hne,
      Ledger.forall_set (Ledger.forall_set hmono hfrom _) (hto.setNewL2Addr hop) _⟩

/-- One operation widens the bound on the nonces by one. -/
theorem apply_packs (h : Shows s L) {k : ℕ} (hL : ∀ a, (L.entry a).Packs k) {op : Op}
    (hop : op.Packs) {raw : Option RawTx} (hr : s.apply op = .ok (raw, s')) :
    ∃ L', Shows s' L' ∧ ∀ a, (L'.entry a).Packs (k + 1) := by
  -- Only transfers and withdrawals increase a nonce; the others keep the bound, and so a greater
  -- one.
  have hmono a := (hL a).mono (Nat.le_succ k)
  cases GlobalState.applied hr with
  | createNewAccount hr =>
    rcases createNewAccount_spec h hr with rfl | ⟨b, -, -, h'⟩
    · exact ⟨L, h, hmono⟩
    · exact ⟨_, h', Ledger.forall_set hmono ((Entry.Packs.create lv _).mono (Nat.zero_le _)) b⟩
  | setAccountL2Addr hr =>
    obtain ⟨e, he, h'⟩ := setAccountL2Addr_spec h hr
    have hpacks := Ledger.entry_of_some he ▸ hmono _
    refine ⟨_, h', Ledger.forall_set hmono ?_ _⟩
    exact ⟨hpacks.nonce, hop, hpacks.orders⟩
  | setAccountNonce hr =>
    obtain ⟨e, he, h'⟩ := setAccountNonce_spec h hr
    have hpacks := Ledger.entry_of_some he ▸ hmono _
    refine ⟨_, h', Ledger.forall_set hmono ?_ _⟩
    exact ⟨Nat.lt_of_lt_of_le hop (Nat.le_add_right _ _), hpacks.sign, hpacks.orders⟩
  | setAccountOrder hr =>
    obtain ⟨e, t, he, -, -, h'⟩ := setAccountOrder_spec h hr
    have hpacks := Ledger.entry_of_some he ▸ hL _
    refine ⟨_, h', Ledger.forall_set hmono ?_ _⟩
    exact hpacks.insert hop rfl rfl rfl
  | setTokenBalance hr =>
    obtain ⟨t, -, h'⟩ := setTokenBalance_spec h hr
    refine ⟨_, h', Ledger.forall_set hmono ?_ _⟩
    exact (hL _).congr (.inl rfl) rfl rfl
  | keyUpdate hr =>
    rcases keyUpdate_spec h hr with ⟨-, rfl⟩ | ⟨-, t, -, h', -⟩
    · exact ⟨L, h, hmono⟩
    · refine ⟨_, h', Ledger.forall_set hmono ?_ _⟩
      exact ⟨(hmono _).nonce, hop, (hmono _).orders⟩
  | deposit hr =>
    rcases deposit_spec h hr with ⟨-, rfl⟩ | ⟨-, t, -, h', -⟩
    · exact ⟨L, h, hmono⟩
    · refine ⟨_, h', Ledger.forall_set hmono (.setNewL2Addr ?_ hop) _⟩
      exact (hL _).congr (.inl rfl) rfl rfl
  | transfer hr => exact transfer_packs h hL hop hr
  | withdraw hr =>
    obtain ⟨t, -, h', -⟩ := withdraw_spec h hr
    refine ⟨_, h', Ledger.forall_set hmono ?_ _⟩
    exact (hL _).congr (.inr rfl) rfl rfl
  | fullSpotTrade hr =>
    obtain ⟨T, e1', e2', hT, h1, h2, h', -⟩ := fullSpotTrade_spec h hr
    have he1 := Ledger.entry_of_some hT.entry1 ▸ hL _
    have he2 := Ledger.entry_of_some hT.entry2 ▸ hL _
    have he1' := he1.trades (hT.takes1.inRange hL hop.1) h1
    have he2' := he2.trades (hT.takes2.inRange hL hop.2) h2
    exact ⟨_, h', Ledger.forall_set (Ledger.forall_set hmono he1' _) he2' _⟩
  | cancelOrder hr =>
    obtain ⟨e, pos, order, he, -, ho, h'⟩ := cancelOrder_spec h hr
    have hpacks := Ledger.entry_of_some he ▸ hL _
    have horder : order.InRange := Entry.orderAt_of_some ho ▸ hpacks.orders pos
    -- Whether an order is active is not packed.
    have hcancelled : ({ order with isActive := false } : Order).InRange :=
      ⟨horder.orderId, horder.tokenBuy, horder.tokenSell⟩
    refine ⟨_, h', Ledger.forall_set hmono ?_ _⟩
    exact hpacks.insert hcancelled rfl rfl rfl
  | nop | flushWithNop | popAllBlocks => exact ⟨L, h, hmono⟩

/-- After fewer transactions than could ever be sent, what is packed is in range. -/
theorem exists_packs {n n' : Node lv} {ops : List Op} {k : ℕ} (h : Shows n.state L)
    (hL : ∀ a, (L.entry a).Packs k) (hops : ∀ op ∈ ops, op.Packs)
    (hrun : Exec.run Node.step n ops = .ok n') :
    ∃ L', Shows n'.state L' ∧ ∀ a, (L'.entry a).Packs (k + ops.length) := by
  induction ops generalizing n L k with
  | nil =>
    obtain rfl := Exec.run_nil.1 hrun
    exact ⟨L, h, hL⟩
  | cons op ops ih =>
    obtain ⟨n₁, hst, hrun⟩ := Exec.run_cons.1 hrun
    obtain ⟨hop, hops⟩ := List.forall_mem_cons.1 hops
    obtain ⟨raw, hr⟩ := Node.step_state hst
    obtain ⟨L₁, h₁, hL₁⟩ := apply_packs h hL hop hr
    obtain ⟨L', h', hL'⟩ := ih h₁ hL₁ hops hrun
    rw [List.length_cons, Nat.add_comm ops.length, ← Nat.add_assoc]
    exact ⟨L', h', hL'⟩

/-! ## The root -/

/-- The entries are the same, as far as they are hashed. -/
structure Entry.SameCommitted (e e' : Entry lv) : Prop where
  key : e.key = e'.key
  nonce : e.state.nonce = e'.state.nonce
  balances : ∀ token < 2 ^ lv.balanceLevels,
    e.balanceTree.getLeaf token = e'.balanceTree.getLeaf token
  orders : ∀ pos < 2 ^ lv.orderLevels, (e.orderAt pos).Agrees (e'.orderAt pos)

/-- The hash of an order only depends on what it packs. -/
theorem Order.Agrees.hash_eq {o o' : Order} (h : o.Agrees o') : o.hash = o'.hash := by
  obtain ⟨hid, hbuy, hsell, hfilledSell, hfilledBuy, htotalSell, htotalBuy⟩ := h
  rw [Order.hash_eq, Order.hash_eq, Order.hashInputs, Order.hashInputs, hid, hbuy, hsell,
    hfilledSell, hfilledBuy, htotalSell, htotalBuy]

/-- What is committed of an entry is all of its state. -/
theorem Entry.SameCommitted.state_eq {e e' : Entry lv} (h : e.SameCommitted e') (he : e.Sound)
    (he' : e'.Sound) : e.state = e'.state := by
  obtain ⟨hsign, hay⟩ := Prod.mk.inj h.key
  have hbalanceRoot := Tree.root_congr he.balanceTree he'.balanceTree h.balances
  have horderRoot := Tree.root_congr he.orderTree.isMerkle he'.orderTree.isMerkle fun pos hpos => by
    rw [he.orderTree.getLeaf hpos, he'.orderTree.getLeaf hpos, Entry.orderLeaf, Entry.orderLeaf,
      (h.orders pos hpos).hash_eq]
  rw [← he.balanceRoot, ← he'.balanceRoot] at hbalanceRoot
  rw [← he.orderRoot, ← he'.orderRoot] at horderRoot
  change AccountState.mk e.state.nonce e.state.sign e.state.balanceRoot e.state.ay
    e.state.orderRoot = _
  rw [h.nonce, hsign, hbalanceRoot, hay, horderRoot]

/-- The leaf of an account binds its entry. -/
theorem Entry.hash_eq_iff {e e' : Entry lv} {k k' : ℕ} (he : e.Sound) (he' : e'.Sound)
    (hp : e.Packs k) (hp' : e'.Packs k') (hk : k ≤ 2 ^ 39) (hk' : k' ≤ 2 ^ 39)
    (hfree : NoCollision (e.hashInputs ++ e'.hashInputs)) :
    e.state.hash = e'.state.hash ↔ e.SameCommitted e' := by
  have hmem : ∀ l ∈ e.balanceTree.hashInputs ++ e.orderTree.hashInputs ++
      (List.range (2 ^ lv.orderLevels)).map fun pos => (e.orderAt pos).hashInputs,
      l ∈ e.hashInputs ++ e'.hashInputs :=
    fun l hl => List.mem_append_left _ (List.mem_cons_of_mem _ hl)
  have hmem' : ∀ l ∈ e'.balanceTree.hashInputs ++ e'.orderTree.hashInputs ++
      (List.range (2 ^ lv.orderLevels)).map fun pos => (e'.orderAt pos).hashInputs,
      l ∈ e.hashInputs ++ e'.hashInputs :=
    fun l hl => List.mem_append_right _ (List.mem_cons_of_mem _ hl)
  simp only [List.mem_append] at hmem hmem'
  -- The hashes of both entries are among those without a collision.
  have hbalances := Tree.root_eq_iff he.balanceTree he'.balanceTree <| hfree.mono fun l hl => by
    rcases List.mem_append.1 hl with hl | hl
    · exact List.mem_append.2 (hmem l (.inl (.inl hl)))
    · exact List.mem_append.2 (hmem' l (.inl (.inl hl)))
  have horders := Tree.root_eq_iff he.orderTree.isMerkle he'.orderTree.isMerkle <|
    hfree.mono fun l hl => by
      rcases List.mem_append.1 hl with hl | hl
      · exact List.mem_append.2 (hmem l (.inl (.inr hl)))
      · exact List.mem_append.2 (hmem' l (.inl (.inr hl)))
  have hagrees (pos : ℕ) (hpos : pos < 2 ^ lv.orderLevels) :
      e.orderTree.getLeaf pos = e'.orderTree.getLeaf pos ↔
        (e.orderAt pos).Agrees (e'.orderAt pos) := by
    rw [he.orderTree.getLeaf hpos, he'.orderTree.getLeaf hpos, Entry.orderLeaf, Entry.orderLeaf,
      ← Order.hashInputs_eq_iff (hp.orders pos) (hp'.orders pos), Order.hash_eq, Order.hash_eq]
    have hin := List.mem_append.2 (hmem _ (.inr (List.mem_map_of_mem (List.mem_range.2 hpos))))
    have hin' := List.mem_append.2 (hmem' _ (.inr (List.mem_map_of_mem (List.mem_range.2 hpos))))
    exact ⟨hfree _ hin _ hin', congrArg Fr.hash⟩
  have hstate : e.state.hash = e'.state.hash ↔ e.state = e'.state := by
    refine ⟨fun hhash => ?_, congrArg AccountState.hash⟩
    exact AccountState.hashInputs_inj (hp.inRange hk) (hp'.inRange hk')
      (hfree _ (List.mem_append_left _ List.mem_cons_self) _
        (List.mem_append_right _ List.mem_cons_self) hhash)
  rw [hstate]
  -- From the hash to the state, from its roots to the leaves, and from the leaves to the orders.
  constructor
  · intro h
    have hbalanceRoot : e.balanceTree.getRoot = e'.balanceTree.getRoot := by
      rw [← he.balanceRoot, h, he'.balanceRoot]
    have horderRoot : e.orderTree.getRoot = e'.orderTree.getRoot := by
      rw [← he.orderRoot, h, he'.orderRoot]
    exact
      { key := by rw [Entry.key, h, Entry.key]
        nonce := by rw [h]
        balances := hbalances.1 hbalanceRoot
        orders := fun pos hpos => (hagrees pos hpos).1 (horders.1 horderRoot pos hpos) }
  · exact fun h => h.state_eq he he'

/-- States are the same, as far as they are hashed, if the entries of their accounts are. -/
theorem Holds.sameCommitted_iff (h : Holds s L) (h' : Holds s' L') : s.SameCommitted s' ↔
    ∀ a < 2 ^ lv.accountLevels, (L.entry a).SameCommitted (L'.entry a) := by
  constructor
  · intro hs a _
    refine ⟨?_, ?_, fun token htoken => ?_, fun pos hpos => ?_⟩
    · rw [← h.keyOf_eq, ← h'.keyOf_eq, hs.key]
    · rw [← h.getAccount_eq, ← h'.getAccount_eq]
      exact hs.nonce a
    · rw [← h.balanceOf_eq a htoken, ← h'.balanceOf_eq a htoken, hs.balances]
    · rw [← h.orderAt_eq, ← h'.orderAt_eq]
      exact hs.orders a pos hpos
  · intro hL
    have hall (a : ℕ) : (L.entry a).SameCommitted (L'.entry a) := by
      by_cases ha : a < 2 ^ lv.accountLevels
      · exact hL a ha
      · -- there is no such account in either
        have hnone : L a = none := Option.eq_none_iff_forall_ne_some.2 fun e he => ha (h.lt he)
        have hnone' : L' a = none := Option.eq_none_iff_forall_ne_some.2 fun e he => ha (h'.lt he)
        rw [Ledger.entry, hnone, Ledger.entry, hnone']
        exact ⟨rfl, rfl, fun _ _ => rfl, fun _ _ => ⟨rfl, rfl, rfl, rfl, rfl, rfl, rfl⟩⟩
    refine ⟨?_, fun a => ?_, ?_, fun a pos hpos => ?_⟩
    · funext a
      rw [h.keyOf_eq, h'.keyOf_eq, (hall a).key]
    · rw [GlobalState.getAccountNonce, GlobalState.getAccountNonce, h.getAccount_eq,
        h'.getAccount_eq, (hall a).nonce]
    · funext a token
      by_cases htoken : token < 2 ^ lv.balanceLevels
      · rw [h.balanceOf_eq a htoken, h'.balanceOf_eq a htoken, (hall a).balances token htoken]
      · rw [s.balanceOf_of_le a htoken, s'.balanceOf_of_le a htoken]
    · rw [h.orderAt_eq, h'.orderAt_eq]
      exact (hall a).orders pos hpos

/-- States that are the same as far as they are hashed have the same root. -/
theorem Shows.root_congr (h : Shows s L) (h' : Shows s' L') (hL : ∀ a, (L.entry a).Sound)
    (hL' : ∀ a, (L'.entry a).Sound) (hs : s.SameCommitted s') : s.root = s'.root := by
  have hentries := (h.sameCommitted_iff h'.toHolds).1 hs
  refine Tree.root_congr h.accountTree.isMerkle h'.accountTree.isMerkle fun a ha => ?_
  rw [h.accountTree.getLeaf ha, h'.accountTree.getLeaf ha]
  exact congrArg AccountState.hash ((hentries a ha).state_eq (hL a) (hL' a))

/-- Two states with the same root have committed to the same accounts. -/
theorem Shows.root_eq_iff (h : Shows s L) (h' : Shows s' L') {k k' : ℕ}
    (hL : ∀ a, (L.entry a).Sound) (hL' : ∀ a, (L'.entry a).Sound) (hp : ∀ a, (L.entry a).Packs k)
    (hp' : ∀ a, (L'.entry a).Packs k') (hk : k ≤ 2 ^ 39) (hk' : k' ≤ 2 ^ 39)
    (hfree : NoCollision (s.hashInputs ++ s'.hashInputs)) :
    s.root = s'.root ↔ s.SameCommitted s' := by
  have hinputs (a : ℕ) (ha : a < 2 ^ lv.accountLevels) :
      (L.entry a).hashInputs ++ (L'.entry a).hashInputs ⊆ s.hashInputs ++ s'.hashInputs := by
    intro l hl
    rw [← h.hashInputsOf_eq, ← h'.hashInputsOf_eq] at hl
    rcases List.mem_append.1 hl with hl | hl
    · exact List.mem_append_left _ (List.mem_append_right _
        (List.mem_flatMap.2 ⟨a, List.mem_range.2 ha, hl⟩))
    · exact List.mem_append_right _ (List.mem_append_right _
        (List.mem_flatMap.2 ⟨a, List.mem_range.2 ha, hl⟩))
  rw [h.sameCommitted_iff h'.toHolds]
  refine (Tree.root_eq_iff h.accountTree.isMerkle h'.accountTree.isMerkle
    (hfree.mono fun l hl => ?_)).trans (forall₂_congr fun a ha => ?_)
  · rcases List.mem_append.1 hl with hl | hl
    · exact List.mem_append_left _ (List.mem_append_left _ hl)
    · exact List.mem_append_right _ (List.mem_append_left _ hl)
  · rw [h.accountTree.getLeaf ha, h'.accountTree.getLeaf ha]
    exact Entry.hash_eq_iff (hL a) (hL' a) (hp a) (hp' a) hk hk' (hfree.mono (hinputs a ha))

end Binding

/-- The accounts of `fundedOps`, with the same keys and balances in another way. -/
def refundedOps : List Op :=
  [.keyUpdate ⟨1, ⟨2, 0, 6⟩⟩ none, .deposit ⟨0, 1, 50, some ⟨1, 1, 5⟩⟩ none,
    .createNewAccount 7, .setTokenBalance 0 1 90]

end Rollup
