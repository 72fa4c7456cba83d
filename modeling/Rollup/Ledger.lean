import Rollup.Global
import Rollup.Tree.Refine

/-!
# The ledger

What the global state is about: a *ledger* gives every existing account its
entry, i.e., its state, its trees and its orders. A global state *holds* a
ledger if its maps are those of the entries (`Holds`), and *shows* it if
moreover its account tree is the Merkle tree over the hashes of the states of
the accounts (`Shows`).

Every function of the global state does to the ledger what its name says: if it
does not panic, from a state holding a ledger, it leads to a state holding the
ledger with the entries of the accounts it is about replaced.
-/

namespace Rollup

variable {lv : Levels}

/-- What the global state holds for an account. -/
structure Entry (lv : Levels) where
  state : AccountState
  balanceTree : Tree lv.balanceLevels
  orderTree : Tree lv.orderLevels
  orders : BTreeMap ℕ Order
  nextOrderPos : ℕ
  /-- order id -> order position -/
  orderPos : ℕ → Option ℕ

/-- The entries of the existing accounts. -/
def Ledger (lv : Levels) : Type := ℕ → Option (Entry lv)

namespace Ledger

/-- The ledger with the entry of an account replaced. -/
def set (L : Ledger lv) (a : ℕ) (e : Entry lv) : Ledger lv := Function.update L a (some e)

variable {L : Ledger lv} {a b : ℕ} {e : Entry lv}

/-- Only the entry of the account is another one. -/
theorem set_apply (L : Ledger lv) (a : ℕ) (e : Entry lv) (b : ℕ) :
    L.set a e b = if b = a then some e else L b :=
  Function.update_apply L a (some e) b

@[simp] theorem set_self (L : Ledger lv) (a : ℕ) (e : Entry lv) : L.set a e a = some e := by
  rw [set_apply, if_pos rfl]

@[simp] theorem set_of_ne (L : Ledger lv) (e : Entry lv) (h : b ≠ a) : L.set a e b = L b := by
  rw [set_apply, if_neg h]

/-- The last entry set for an account is the one it has. -/
@[simp] theorem set_idem (L : Ledger lv) (a : ℕ) (e e' : Entry lv) :
    (L.set a e).set a e' = L.set a e' := by
  funext b
  simp only [set_apply]
  split <;> rfl

/-- Entries of different accounts are set in any order. -/
theorem set_comm (L : Ledger lv) (h : a ≠ b) (e e' : Entry lv) :
    (L.set a e).set b e' = (L.set b e').set a e := by
  funext c
  simp only [set_apply]
  split
  · next hc => rw [if_neg (by rw [hc]; exact h.symm)]
  · rfl

/-- An entry set again, with one of another account set in between. -/
theorem set_set_set (L : Ledger lv) (h : a ≠ b) (e f e' : Entry lv) :
    ((L.set a e).set b f).set a e' = (L.set a e').set b f := by
  rw [set_comm _ h.symm, set_idem]

/-- Setting the entry an account has changes nothing. -/
theorem set_eq_self (h : L a = some e) : L.set a e = L := by
  funext b
  rw [set_apply]
  split
  · next hb => rw [hb, h]
  · rfl

/-- No account is lost. -/
theorem isSome_set (h : (L b).isSome) (a : ℕ) (e : Entry lv) : (L.set a e b).isSome := by
  rw [set_apply]
  split
  · rfl
  · exact h

end Ledger

variable [FluidexCommon]

namespace Entry

/-- The entry of a new account. -/
def create (lv : Levels) (nextOrderId : ℕ) : Entry lv where
  state := lv.emptyAccount
  balanceTree := lv.emptyBalanceTree
  orderTree := lv.emptyOrderTree
  orders := ∅
  nextOrderPos := nextOrderId
  orderPos := fun _ => none

/-- The entry with the current roots of its trees in its state. -/
def commit (e : Entry lv) : Entry lv :=
  { e with state := { e.state with
    balanceRoot := e.balanceTree.getRoot
    orderRoot := e.orderTree.getRoot } }

/-- Only the nonce of the state changes. -/
def setNonce (e : Entry lv) (nonce : Fr) : Entry lv :=
  { e with state := e.state.updateNonce nonce }

/-- Only the key of the state changes. -/
def setL2Addr (e : Entry lv) (sign ay : Fr) : Entry lv :=
  { e with state := e.state.updateL2Addr sign ay }

/-- The state of the account still has the old root. -/
def setBalanceTree (e : Entry lv) (tree : Tree lv.balanceLevels) : Entry lv :=
  { e with balanceTree := tree }

/-- The state of the account still has the old root. -/
def setOrderTree (e : Entry lv) (tree : Tree lv.orderLevels) : Entry lv :=
  { e with orderTree := tree }

/-- The order in a slot changes, its leaf does not. -/
def setOrder (e : Entry lv) (pos : ℕ) (order : Order) : Entry lv :=
  { e with orders := e.orders.insert pos order }

/-- Recording the slot of an order. -/
def setOrderPos (e : Entry lv) (orderId pos : ℕ) : Entry lv :=
  { e with orderPos := Function.update e.orderPos orderId (some pos) }

/-- Where the next search for a slot begins. -/
def setNextOrderPos (e : Entry lv) (pos : ℕ) : Entry lv := { e with nextOrderPos := pos }

/-- The order at a position, the default one if there is none. -/
def orderAt (e : Entry lv) (pos : ℕ) : Order := (e.orders.lookup pos).getD Order.default

/-- The leaf committing to the order at a position. -/
def orderLeaf (e : Entry lv) (pos : ℕ) : Fr := (e.orderAt pos).hash

/-- The positions a new order may take: the first free one, or, when there is none,
    that of a closed order with a smaller id. -/
inductive Slot (e : Entry lv) (orderId : ℕ) : ℕ → Prop
  | free : e.orders.keys.length < 2 ^ lv.orderLevels →
      e.orders.lookup e.orders.keys.length = none → Slot e orderId e.orders.keys.length
  | closed {pos : ℕ} {old : Order} : e.orders.keys.length = 2 ^ lv.orderLevels →
      pos < 2 ^ lv.orderLevels → e.orders.lookup pos = some old → ¬old.isDefault →
      old.isFilled ∨ old.isActive = false → old.orderId < orderId → Slot e orderId pos

/-- Finding the position of an order, or giving it one, leads to the last entry. -/
inductive Place (e : Entry lv) (orderId : ℕ) : ℕ → Entry lv → Prop
  | known {pos : ℕ} : e.orderPos orderId = some pos → Place e orderId pos e
  | new {pos : ℕ} (next : ℕ) : e.orderPos orderId = none → e.Slot orderId pos →
      Place e orderId pos ((e.setNextOrderPos next).setOrderPos orderId pos)

namespace Place

variable {e e' : Entry lv} {orderId pos : ℕ} (h : e.Place orderId pos e')
include h
omit [FluidexCommon]

@[simp] theorem state_eq : e'.state = e.state := by cases h <;> rfl

@[simp] theorem balanceTree_eq : e'.balanceTree = e.balanceTree := by cases h <;> rfl

@[simp] theorem orderTree_eq : e'.orderTree = e.orderTree := by cases h <;> rfl

@[simp] theorem orders_eq : e'.orders = e.orders := by cases h <;> rfl

/-- The order is found where it was placed. -/
theorem orderPos_self : e'.orderPos orderId = some pos := by
  cases h with
  | known hp => exact hp
  | new next hn hs => exact Function.update_self orderId _ _

/-- The other orders are found where they were. -/
theorem orderPos_of_ne {orderId' : ℕ} (hne : orderId' ≠ orderId) :
    e'.orderPos orderId' = e.orderPos orderId' := by
  cases h with
  | known hp => rfl
  | new next hn hs => exact Function.update_of_ne hne _ _

end Place

/-- The balance that is read: an account without a key has none. -/
def balance (e : Entry lv) (token : ℕ) : Fr :=
  if e.state.ay = 0 then 0 else e.balanceTree.getLeaf token

omit [FluidexCommon] in
/-- The balance of an account with a key is the leaf. -/
theorem balance_of_keyed {e : Entry lv} (h : e.state.ay ≠ 0) (token : ℕ) :
    e.balance token = e.balanceTree.getLeaf token :=
  if_neg h

omit [FluidexCommon] in
/-- Placing an order leaves the balances as they are. -/
theorem Place.balance_eq {e e' : Entry lv} {orderId pos : ℕ} (h : e.Place orderId pos e')
    (token : ℕ) : e'.balance token = e.balance token := by
  rw [balance, balance, h.state_eq, h.balanceTree_eq]

end Entry

namespace Ledger

/-- The entry of an account, that of a new one if it does not exist. -/
def entry (L : Ledger lv) (a : ℕ) : Entry lv := (L a).getD (.create lv lv.defaultNextOrderId)

/-- The leaf committing to an account. -/
def leaf (L : Ledger lv) (a : ℕ) : Fr := (L.entry a).state.hash

theorem entry_of_some {L : Ledger lv} {a : ℕ} {e : Entry lv} (he : L a = some e) : L.entry a = e := by
  rw [entry, he, Option.getD_some]

/-- What is read after an entry is set. -/
theorem entry_set (L : Ledger lv) (a : ℕ) (e : Entry lv) (b : ℕ) :
    (L.set a e).entry b = if b = a then e else L.entry b := by
  rw [entry, set_apply]
  split <;> rfl

/-- What holds of the other entries holds of them all exactly when it holds of the new one. -/
theorem forall_set_iff {L : Ledger lv} {P : Entry lv → Prop} (hL : ∀ a, P (L.entry a)) (a : ℕ)
    (e : Entry lv) : (∀ b, P ((L.set a e).entry b)) ↔ P e := by
  constructor
  · intro h
    have ha := h a
    rwa [entry_set, if_pos rfl] at ha
  · intro he b
    rw [entry_set]
    split
    · exact he
    · exact hL b

/-- A property of every entry is kept when a new entry has it. -/
theorem forall_set {L : Ledger lv} {P : Entry lv → Prop} {e : Entry lv} (hL : ∀ a, P (L.entry a))
    (he : P e) (a : ℕ) : ∀ b, P ((L.set a e).entry b) :=
  (forall_set_iff hL a e).2 he

/-- The leaf of an account that exists is the hash of its state. -/
theorem leaf_of_some {L : Ledger lv} {a : ℕ} {e : Entry lv} (he : L a = some e) :
    L.leaf a = e.state.hash := by
  rw [leaf, entry_of_some he]

theorem leaf_of_none {L : Ledger lv} {a : ℕ} (hn : L a = none) : L.leaf a = lv.defaultAccountLeaf := by
  rw [leaf, entry, hn, Option.getD_none]
  rfl

/-- Setting an entry writes one leaf. -/
theorem leaf_set (L : Ledger lv) (a : ℕ) (e : Entry lv) :
    (L.set a e).leaf = Function.update L.leaf a e.state.hash := by
  funext b
  rw [leaf, entry, set_apply, Function.update_apply]
  split <;> rfl

/-- The leaf stays if the state does, whatever happens to the trees and the orders. -/
theorem leaf_set_of_state {L : Ledger lv} {a : ℕ} {e e' : Entry lv} (he : L a = some e)
    (hs : e'.state = e.state) : (L.set a e').leaf = L.leaf := by
  rw [leaf_set, hs, ← leaf_of_some he, Function.update_eq_self]

/-- The tree is the Merkle tree over the leaves committing to the accounts; no other
    leaf is stored. -/
structure CommittedBy (L : Ledger lv) (t : Tree lv.accountLevels) : Prop where
  represents : t.Represents L.leaf
  defaultNodes : t.defaultNodes = (Tree.empty lv.accountLevels lv.defaultAccountLeaf).defaultNodes
  exists_of_stored : ∀ a < 2 ^ lv.accountLevels, a ∈ t.data → (L a).isSome

/-- The account tree commits to the new entry once its leaf is written. -/
theorem CommittedBy.set {L : Ledger lv} {t t' : Tree lv.accountLevels} {a : ℕ} {e : Entry lv}
    (ht : L.CommittedBy t) (ha : a < 2 ^ lv.accountLevels)
    (hset : t.setValue a e.state.hash = .ok t') : (L.set a e).CommittedBy t' where
  represents := by
    rw [L.leaf_set]
    exact ht.represents.setValue ha hset
  defaultNodes := (Tree.defaultNodes_setValue hset).trans ht.defaultNodes
  exists_of_stored b hb hmem := by
    rcases Tree.mem_data_setValue hset hb hmem with rfl | hmem
    · rw [set_self]
      rfl
    · exact isSome_set (ht.exists_of_stored b hb hmem) a e

/-- The tree may be kept as long as the state of the account is. -/
theorem CommittedBy.keep {L : Ledger lv} {t : Tree lv.accountLevels} {a : ℕ} {e e' : Entry lv}
    (ht : L.CommittedBy t) (he : L a = some e) (hs : e'.state = e.state) :
    (L.set a e').CommittedBy t where
  represents := leaf_set_of_state he hs ▸ ht.represents
  defaultNodes := ht.defaultNodes
  exists_of_stored b hb hmem := isSome_set (ht.exists_of_stored b hb hmem) a e'

end Ledger

/-- The maps of the state are those of the entries of the ledger. -/
structure Holds (s : GlobalState lv) (L : Ledger lv) : Prop where
  accountStates : ∀ a, s.accountStates.lookup a = (L a).map Entry.state
  balanceTrees : ∀ a, s.balanceTrees.lookup a = (L a).map Entry.balanceTree
  orderTrees : ∀ a, s.orderTrees.lookup a = (L a).map Entry.orderTree
  orderStates : ∀ a, s.orderStates.lookup a = (L a).map Entry.orders
  nextOrderPositions : ∀ a, s.nextOrderPositions.lookup a = (L a).map Entry.nextOrderPos
  orderIdToPos : ∀ a orderId,
    s.orderIdToPos.lookup (a, orderId) = (L a).bind fun e => e.orderPos orderId
  lt_of_some : ∀ a e, L a = some e → a < 2 ^ lv.accountLevels

/-- Moreover, the account tree commits to the accounts. -/
structure Shows (s : GlobalState lv) (L : Ledger lv) : Prop extends Holds s L where
  committed : L.CommittedBy s.accountTree

/-- The map `m'` is the map `m` with the value of `a` replaced. -/
def Sets {ν : Type} (m : FnvHashMap ℕ ν) (a : ℕ) (v : ν) (m' : FnvHashMap ℕ ν) : Prop :=
  ∀ b, m'.lookup b = if b = a then some v else m.lookup b

omit [FluidexCommon] in
theorem Sets.insert {ν : Type} (m : FnvHashMap ℕ ν) (a : ℕ) (v : ν) : Sets m a v (m.insert a v) :=
  fun b => lookup_insert_ite m a b v

omit [FluidexCommon] in
/-- A map that already has the value need not change. -/
theorem Sets.keep {ν : Type} {m : FnvHashMap ℕ ν} {a : ℕ} {v v' : ν} (h : m.lookup a = some v)
    (hv : v' = v) : Sets m a v' m := by
  intro b
  split
  · next hb => rw [hb, h, hv]
  · rfl

namespace Holds

variable {s s' : GlobalState lv} {L : Ledger lv} {a : ℕ} {e e' : Entry lv}

omit [FluidexCommon] in
/-- Replacing the entry of an account in the ledger is replacing its values in the maps. -/
theorem set (h : Holds s L) (ha : a < 2 ^ lv.accountLevels)
    (h1 : Sets s.accountStates a e.state s'.accountStates)
    (h2 : Sets s.balanceTrees a e.balanceTree s'.balanceTrees)
    (h3 : Sets s.orderTrees a e.orderTree s'.orderTrees)
    (h4 : Sets s.orderStates a e.orders s'.orderStates)
    (h5 : Sets s.nextOrderPositions a e.nextOrderPos s'.nextOrderPositions)
    (h6 : ∀ b orderId, s'.orderIdToPos.lookup (b, orderId) =
      if b = a then e.orderPos orderId else s.orderIdToPos.lookup (b, orderId)) :
    Holds s' (L.set a e) where
  accountStates b := by rw [h1, L.set_apply]; split <;> simp [h.accountStates]
  balanceTrees b := by rw [h2, L.set_apply]; split <;> simp [h.balanceTrees]
  orderTrees b := by rw [h3, L.set_apply]; split <;> simp [h.orderTrees]
  orderStates b := by rw [h4, L.set_apply]; split <;> simp [h.orderStates]
  nextOrderPositions b := by rw [h5, L.set_apply]; split <;> simp [h.nextOrderPositions]
  orderIdToPos b orderId := by rw [h6, L.set_apply]; split <;> simp [h.orderIdToPos]
  lt_of_some b e' he' := by
    rw [L.set_apply] at he'
    split at he'
    · next hb => exact hb ▸ ha
    · exact h.lt_of_some b e' he'

section Lookups

variable (h : Holds s L) (he : L a = some e)
include h he

omit [FluidexCommon]

theorem lookup_accountStates : s.accountStates.lookup a = some e.state := by
  rw [h.accountStates, he, Option.map_some]

theorem lookup_balanceTrees : s.balanceTrees.lookup a = some e.balanceTree := by
  rw [h.balanceTrees, he, Option.map_some]

theorem lookup_orderTrees : s.orderTrees.lookup a = some e.orderTree := by
  rw [h.orderTrees, he, Option.map_some]

theorem lookup_orderStates : s.orderStates.lookup a = some e.orders := by
  rw [h.orderStates, he, Option.map_some]

theorem lookup_nextOrderPositions : s.nextOrderPositions.lookup a = some e.nextOrderPos := by
  rw [h.nextOrderPositions, he, Option.map_some]

theorem lookup_orderIdToPos (orderId : ℕ) :
    s.orderIdToPos.lookup (a, orderId) = e.orderPos orderId := by
  rw [h.orderIdToPos, he, Option.bind_some]

/-- The positions of all accounts, with a name for those of the account. -/
theorem orderIdToPos_ite {f : ℕ → Option ℕ} (hf : f = e.orderPos) (b orderId : ℕ) :
    s.orderIdToPos.lookup (b, orderId) =
      if b = a then f orderId else s.orderIdToPos.lookup (b, orderId) := by
  split
  · next hb => rw [hb, h.lookup_orderIdToPos he, hf]
  · rfl

/-- An account that exists has a leaf. -/
theorem lt : a < 2 ^ lv.accountLevels := h.lt_of_some a e he

/-! Inserting a value in one of the maps. -/

/-- The state of an account may be replaced in its map alone. -/
theorem insertState (acc : AccountState) :
    Holds { s with accountStates := s.accountStates.insert a acc }
      (L.set a { e with state := acc }) :=
  h.set (h.lt he) (.insert _ _ _) (.keep (h.lookup_balanceTrees he) rfl)
    (.keep (h.lookup_orderTrees he) rfl) (.keep (h.lookup_orderStates he) rfl)
    (.keep (h.lookup_nextOrderPositions he) rfl) (h.orderIdToPos_ite he rfl)

theorem insertBalanceTree (t : Tree lv.balanceLevels) :
    Holds { s with balanceTrees := s.balanceTrees.insert a t } (L.set a (e.setBalanceTree t)) :=
  h.set (h.lt he) (.keep (h.lookup_accountStates he) rfl) (.insert _ _ _)
    (.keep (h.lookup_orderTrees he) rfl) (.keep (h.lookup_orderStates he) rfl)
    (.keep (h.lookup_nextOrderPositions he) rfl) (h.orderIdToPos_ite he rfl)

theorem insertOrderTree (t : Tree lv.orderLevels) :
    Holds { s with orderTrees := s.orderTrees.insert a t } (L.set a (e.setOrderTree t)) :=
  h.set (h.lt he) (.keep (h.lookup_accountStates he) rfl) (.keep (h.lookup_balanceTrees he) rfl)
    (.insert _ _ _) (.keep (h.lookup_orderStates he) rfl)
    (.keep (h.lookup_nextOrderPositions he) rfl) (h.orderIdToPos_ite he rfl)

theorem insertOrders (orders : BTreeMap ℕ Order) :
    Holds { s with orderStates := s.orderStates.insert a orders }
      (L.set a { e with orders := orders }) :=
  h.set (h.lt he) (.keep (h.lookup_accountStates he) rfl) (.keep (h.lookup_balanceTrees he) rfl)
    (.keep (h.lookup_orderTrees he) rfl) (.insert _ _ _)
    (.keep (h.lookup_nextOrderPositions he) rfl) (h.orderIdToPos_ite he rfl)

theorem insertNextOrderPos (pos : ℕ) :
    Holds { s with nextOrderPositions := s.nextOrderPositions.insert a pos }
      (L.set a (e.setNextOrderPos pos)) :=
  h.set (h.lt he) (.keep (h.lookup_accountStates he) rfl) (.keep (h.lookup_balanceTrees he) rfl)
    (.keep (h.lookup_orderTrees he) rfl) (.keep (h.lookup_orderStates he) rfl) (.insert _ _ _)
    (h.orderIdToPos_ite he rfl)

theorem insertOrderPos (orderId pos : ℕ) :
    Holds { s with orderIdToPos := s.orderIdToPos.insert (a, orderId) pos }
      (L.set a (e.setOrderPos orderId pos)) := by
  refine h.set (h.lt he) (.keep (h.lookup_accountStates he) rfl)
    (.keep (h.lookup_balanceTrees he) rfl) (.keep (h.lookup_orderTrees he) rfl)
    (.keep (h.lookup_orderStates he) rfl) (.keep (h.lookup_nextOrderPositions he) rfl) ?_
  intro b orderId'
  simp only [lookup_insert_ite, Entry.setOrderPos, Function.update_apply, Prod.mk.injEq]
  rcases eq_or_ne b a with rfl | hb
  · simp [h.lookup_orderIdToPos he]
  · simp [hb]

end Lookups

omit [FluidexCommon] in
/-- A ledger says nothing of the account tree. -/
theorem setAccountTree (h : Holds s L) (t : Tree lv.accountLevels) :
    Holds { s with accountTree := t } L :=
  ⟨h.1, h.2, h.3, h.4, h.5, h.6, h.7⟩

omit [FluidexCommon] in
/-- The maps have the same accounts. -/
theorem exists_entry (h : Holds s L) {acc : AccountState} (hacc : s.accountStates.lookup a = some acc) :
    ∃ e, L a = some e ∧ e.state = acc := by
  rwa [h.accountStates, Option.map_eq_some_iff] at hacc

omit [FluidexCommon] in
/-- The maps have the accounts that the ledger has. -/
theorem mem_accountStates (h : Holds s L) : a ∈ s.accountStates ↔ (L a).isSome := by
  rw [← AList.lookup_isSome, h.accountStates, Option.isSome_map]

omit [FluidexCommon] in
theorem mem_balanceTrees (h : Holds s L) : a ∈ s.balanceTrees ↔ (L a).isSome := by
  rw [← AList.lookup_isSome, h.balanceTrees, Option.isSome_map]

omit [FluidexCommon] in
theorem mem_orderTrees (h : Holds s L) : a ∈ s.orderTrees ↔ (L a).isSome := by
  rw [← AList.lookup_isSome, h.orderTrees, Option.isSome_map]

omit [FluidexCommon] in
/-- A state holds only one ledger. -/
theorem unique {L' : Ledger lv} (h : Holds s L) (h' : Holds s L') : L = L' := by
  funext a
  cases he : L a with
  | none =>
    have hnone := h'.accountStates a
    rw [h.accountStates, he, eq_comm, Option.map_none, Option.map_eq_none_iff] at hnone
    exact hnone.symm
  | some e =>
    obtain ⟨e', he', hstate⟩ := h'.exists_entry (h.lookup_accountStates he)
    have hbal := (h'.lookup_balanceTrees he').symm.trans (h.lookup_balanceTrees he)
    have hord := (h'.lookup_orderTrees he').symm.trans (h.lookup_orderTrees he)
    have hstates := (h'.lookup_orderStates he').symm.trans (h.lookup_orderStates he)
    have hnext := (h'.lookup_nextOrderPositions he').symm.trans (h.lookup_nextOrderPositions he)
    have hpos : e'.orderPos = e.orderPos := by
      funext orderId
      rw [← h'.lookup_orderIdToPos he', h.lookup_orderIdToPos he]
    cases e
    cases e'
    simp_all

/-! ## Reading -/

/-- What is read of an account is what its entry has, or a new one. -/
theorem getAccount_eq (h : Holds s L) (a : ℕ) : s.getAccount a = (L.entry a).state := by
  rw [GlobalState.getAccount, h.accountStates, Ledger.entry]
  cases L a <;> rfl

theorem hasAccount_iff (h : Holds s L) (a : ℕ) : s.hasAccount a ↔ (L.entry a).state.ay ≠ 0 := by
  rw [GlobalState.hasAccount, h.getAccount_eq]

/-- An account with a key exists. -/
theorem exists_of_hasAccount (h : Holds s L) (ha : s.hasAccount a) :
    ∃ e, L a = some e ∧ e.state.ay ≠ 0 := by
  rw [h.hasAccount_iff, Ledger.entry] at ha
  cases he : L a with
  | none => rw [he] at ha; exact absurd rfl ha
  | some e => rw [he] at ha; exact ⟨e, rfl, ha⟩

/-- Reading a balance never fails. -/
theorem getTokenBalance_eq (h : Holds s L) (a token : ℕ) :
    s.getTokenBalance a token = .ok ((L.entry a).balance token) := by
  unfold GlobalState.getTokenBalance Entry.balance
  by_cases ha : s.hasAccount a
  · obtain ⟨e, he, hay⟩ := h.exists_of_hasAccount ha
    rw [if_neg (not_not.2 ha), Ledger.entry_of_some he, if_neg hay, unwrap,
      h.lookup_balanceTrees he]
    rfl
  · rw [if_pos ha, if_pos (not_not.1 fun hay => ha ((h.hasAccount_iff a).2 hay))]
    rfl

theorem balanceProof_eq (h : Holds s L) (a token : ℕ) :
    s.balanceProof a token = (L.entry a).balanceTree.getProof token := by
  rw [GlobalState.balanceProof, h.balanceTrees, Ledger.entry]
  cases L a <;> rfl

omit [FluidexCommon] in
/-- An order is known if the entry of its account has a position for it. -/
theorem hasOrder_iff (h : Holds s L) (a orderId : ℕ) :
    s.hasOrder a orderId ↔ ∃ e pos, L a = some e ∧ e.orderPos orderId = some pos := by
  rw [GlobalState.hasOrder, ← AList.lookup_isSome, h.orderIdToPos]
  cases L a <;> simp [Option.isSome_iff_exists]

omit [FluidexCommon] in
/-- Reading the slot of an account that exists does not fail. -/
theorem getAccountOrderByPos_eq (h : Holds s L) (he : L a = some e) (pos : ℕ) :
    s.getAccountOrderByPos a pos = .ok (e.orderAt pos) := by
  rw [GlobalState.getAccountOrderByPos, unwrap, h.lookup_orderStates he]
  rfl

end Holds

/-- An entry may be changed without the account tree as long as the state of the account is kept. -/
theorem Shows.of_holds {s s' : GlobalState lv} {L : Ledger lv} {a : ℕ} {e e' : Entry lv}
    (h : Shows s L) (he : L a = some e) (h' : Holds s' (L.set a e'))
    (htree : s'.accountTree = s.accountTree) (hs : e'.state = e.state) : Shows s' (L.set a e') :=
  ⟨h', htree ▸ h.committed.keep he hs⟩

/-- The account tree is a Merkle tree over the leaves of the ledger. -/
theorem Shows.accountTree {s : GlobalState lv} {L : Ledger lv} (h : Shows s L) :
    s.accountTree.Represents L.leaf :=
  h.committed.represents

/-- The root is that of the Merkle tree over the hashes of the accounts. -/
theorem Shows.root_eq {s : GlobalState lv} {L : Ledger lv} (h : Shows s L) :
    s.root = Merkle.node Tree.hash2 L.leaf lv.accountLevels 0 :=
  h.accountTree.getRoot

end Rollup
