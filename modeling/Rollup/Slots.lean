import Rollup.Authorisation
import Rollup.Lib.Maps

/-!
# Slots

The next free slot of an account is not recorded: it is the number of its orders. So the slots
in use must be the first ones, which is an invariant of the trades as long as no order is set
directly (`Entry.Slotted`). When all the slots are in use, the order that is replaced is the
first one, from the cursor on and around, that is closed and has a smaller id; the cursor may
be just after the last slot.

No assertion of the search fails then: an order that is stored is not the default one, and its
id has a position (`picksSlots_of_keepsSlots`).
-/

namespace Rollup

/-! ## Going around -/

/-- The numbers below `n`, from `start` on and around. -/
def positionsFrom (start n : ℕ) : List ℕ := (List.range n).map fun i => (start + i) % n

theorem length_positionsFrom (start n : ℕ) : (positionsFrom start n).length = n := by
  rw [positionsFrom, List.length_map, List.length_range]

theorem getElem_positionsFrom {start n i : ℕ} (hi : i < (positionsFrom start n).length) :
    (positionsFrom start n)[i] = (start + i) % n := by
  simp only [positionsFrom, List.getElem_map, List.getElem_range]

section Slots

variable [FluidexCommon] {lv : Levels} {s s' : GlobalState lv} {L : Ledger lv} {a : ℕ}
  {e e' : Entry lv}

/-! ## The slots of an account -/

/-- The first slots are in use, by orders that sell something and whose ids are recorded. -/
structure Entry.Slotted (e : Entry lv) : Prop where
  filled : Maps.Filled e.orders
  length_le : e.orders.keys.length ≤ 2 ^ lv.orderLevels
  sells : ∀ pos o, e.orders.lookup pos = some o → ¬o.isDefault
  recorded : ∀ pos o, e.orders.lookup pos = some o → (e.orderPos o.orderId).isSome
  occupied : e.Occupied
  next_le : e.nextOrderPos ≤ 2 ^ lv.orderLevels

namespace Entry.Slotted

theorem create (lv : Levels) {n : ℕ} (hn : n ≤ 2 ^ lv.orderLevels) : (Entry.create lv n).Slotted where
  filled := .empty
  length_le := Nat.zero_le _
  sells _ _ h := by cases h
  recorded _ _ h := by cases h
  occupied := .create lv n
  next_le := hn

omit [FluidexCommon] in
theorem congr (h : e.Slotted) (hs : e.SameSlots e') : e'.Slotted where
  filled := hs.orders ▸ h.filled
  length_le := hs.orders ▸ h.length_le
  sells := hs.orders ▸ h.sells
  recorded := by
    rw [hs.orders, hs.orderPos]
    exact h.recorded
  occupied := by
    intro orderId pos
    rw [hs.orders, hs.orderPos]
    exact h.occupied orderId pos
  next_le := hs.nextOrderPos ▸ h.next_le

omit [FluidexCommon] in
/-- Storing an order in a slot that is in use, or in the next one. -/
theorem insert (h : e.Slotted) {order : Order} {pos : ℕ} (ho : e'.orders = e.orders.insert pos order)
    (hpos : pos ∈ e.orders ∨ pos = e.orders.keys.length ∧ pos < 2 ^ lv.orderLevels)
    (hsell : ¬order.isDefault) (hid : (e'.orderPos order.orderId).isSome)
    (hkeep : ∀ orderId, (e.orderPos orderId).isSome → (e'.orderPos orderId).isSome)
    (hocc : e'.Occupied) (hnext : e'.nextOrderPos ≤ 2 ^ lv.orderLevels) : e'.Slotted := by
  -- what holds of the new order and of the others holds of them all
  have hall {P : Order → Prop} (hnew : P order) (hold : ∀ p o, e.orders.lookup p = some o → P o) :
      ∀ p o, e'.orders.lookup p = some o → P o := by
    intro p o hl
    rw [ho, lookup_insert_ite] at hl
    split at hl
    · exact Option.some.inj hl ▸ hnew
    · exact hold p o hl
  refine ⟨?_, ?_, hall hsell h.sells, hall hid fun p o hl => hkeep _ (h.recorded p o hl), hocc, hnext⟩
  · rw [ho]
    rcases hpos with hmem | ⟨rfl, -⟩
    · exact h.filled.insert_of_mem hmem order
    · exact h.filled.push order
  · rw [ho]
    rcases hpos with hmem | ⟨rfl, hlt⟩
    · rw [Maps.Filled.length_insert_of_mem hmem]
      exact h.length_le
    · rw [h.filled.length_push]
      exact hlt

/-- A trade of an order that sells something. -/
theorem trades (h : e.Slotted) {order : Order} {pos : ℕ} {sell buy : Fr} {updates : List (ℕ × Fr)}
    (ht : e.TradesAt order pos sell buy updates e') (hsell : ¬order.isDefault) : e'.Slotted := by
  have htrades := ht.trades
  -- the id of the order is recorded, and the others still are
  have hkeep : ∀ orderId, (e.orderPos orderId).isSome → (e'.orderPos orderId).isSome := by
    intro orderId hsome
    rcases eq_or_ne orderId order.orderId with rfl | hne
    · rw [htrades.orderPos_self]
      rfl
    · rwa [htrades.orderPos_of_ne hne]
  have hid : (e'.orderPos order.orderId).isSome := by
    rw [htrades.orderPos_self]
    rfl
  obtain ⟨placed, ot, hf, -, he'⟩ := ht
  have hnext : e'.nextOrderPos = placed.nextOrderPos := by
    rw [he']
    rfl
  -- the slot was in use, or it is the next one
  refine h.insert htrades.orders_eq ?_ hsell hid hkeep (h.occupied.trades htrades) (hnext ▸ ?_)
  · cases hf with
    | known hp =>
      obtain ⟨o, ho⟩ := h.occupied _ _ hp
      exact .inl (AList.lookup_isSome.1 (by rw [ho]; rfl))
    | free _ hlt _ => exact .inr ⟨rfl, hlt⟩
    | closed _ hfull _ hpos _ _ =>
      refine .inl ((h.filled _).2 ?_)
      rw [hfull, ← hpos]
      exact Nat.mod_lt _ (Nat.two_pow_pos _)
  · cases hf with
    | known _ | free _ _ _ => exact h.next_le
    | closed _ _ _ hpos _ _ =>
      rw [← hpos]
      exact Nat.mod_lt _ (Nat.two_pow_pos _)

omit [FluidexCommon] in
/-- A cancelled order keeps its slot. -/
theorem cancel (h : e.Slotted) {pos : ℕ} {order : Order} (ho : e.orders.lookup pos = some order) :
    (e.setOrder pos { order with isActive := false }).Slotted := by
  have hocc : (e.setOrder pos { order with isActive := false }).Occupied := by
    intro orderId p hp
    exact Entry.Occupied.lookup_insert (h.occupied orderId p hp)
  exact h.insert rfl (.inl (AList.lookup_isSome.1 (by rw [ho]; rfl))) (h.sells pos order ho)
    (h.recorded pos order ho) (fun _ => id) hocc h.next_le

end Entry.Slotted

/-! ## Operations -/

/-- The orders are only those of trades, which sell something, and the cursor of a new
    account is in range. -/
def Op.KeepsSlots (lv : Levels) : Op → Prop
  | .createNewAccount nextOrderId => nextOrderId ≤ 2 ^ lv.orderLevels
  | .setAccountOrder _ _ _ => False
  | .fullSpotTrade _ tx _ =>
    (∀ order ∈ tx.makerOrder, order.totalSell ≠ 0) ∧ ∀ order ∈ tx.takerOrder, order.totalSell ≠ 0
  | _ => True

instance (lv : Levels) : (op : Op) → Decidable (op.KeepsSlots lv)
  | .createNewAccount nextOrderId => inferInstanceAs (Decidable (nextOrderId ≤ 2 ^ lv.orderLevels))
  | .setAccountOrder _ _ _ => .isFalse id
  | .fullSpotTrade _ tx _ => inferInstanceAs (Decidable (
      (∀ order ∈ tx.makerOrder, order.totalSell ≠ 0) ∧ ∀ order ∈ tx.takerOrder, order.totalSell ≠ 0))
  | .setAccountL2Addr _ _ _ | .setAccountNonce _ _ | .setTokenBalance _ _ _ | .keyUpdate _ _
  | .deposit _ _ | .transfer _ _ _ | .withdraw _ _ | .cancelOrder _ _ | .nop | .flushWithNop
  | .popAllBlocks => .isTrue trivial

/-- An order that a trade takes sells something. -/
theorem Ledger.Takes.not_isDefault {supplied : Option Order} {orderId : ℕ} {order : Order}
    (h : L.Takes supplied a orderId order) (hL : ∀ a, (L.entry a).Slotted)
    (hs : ∀ o ∈ supplied, o.totalSell ≠ 0) : ¬order.isDefault := by
  cases supplied with
  | some o =>
    obtain ⟨rfl, -⟩ := h
    exact hs order rfl
  | none =>
    obtain ⟨e, pos, he, hpos, rfl⟩ := h
    have hslotted := Ledger.entry_of_some he ▸ hL a
    obtain ⟨o, ho⟩ := hslotted.occupied _ _ hpos
    rw [Entry.orderAt_of_some ho]
    exact hslotted.sells pos o ho

theorem apply_slotted (h : Shows s L) (hL : ∀ a, (L.entry a).Slotted) {op : Op}
    (hop : op.KeepsSlots lv) {raw : Option RawTx} (hr : s.apply op = .ok (raw, s')) :
    ∃ L', Shows s' L' ∧ ∀ a, (L'.entry a).Slotted := by
  -- Most operations keep the slots of all accounts.
  by_cases hsame : ¬op.OnOrders ∧ ∀ n, op ≠ .createNewAccount n
  · obtain ⟨L', h', hslots⟩ := apply_sameSlots h hsame.1 hsame.2 hr
    exact ⟨L', h', fun a => (hL a).congr (hslots a)⟩
  cases GlobalState.applied hr with
  | createNewAccount hr =>
    rcases createNewAccount_spec h hr with rfl | ⟨b, -, -, h'⟩
    · exact ⟨L, h, hL⟩
    · exact ⟨_, h', Ledger.forall_set hL (.create lv hop) b⟩
  | setAccountOrder _ => exact hop.elim
  | fullSpotTrade hr =>
    obtain ⟨T, e1', e2', hT, h1, h2, h', -⟩ := fullSpotTrade_exact h hr
    have he1 := Ledger.entry_of_some hT.entry1 ▸ hL _
    have he2 := Ledger.entry_of_some hT.entry2 ▸ hL _
    -- The order of a trade sells something, and so is told from an empty slot.
    have he1' := he1.trades h1 (hT.takes1.not_isDefault hL hop.1)
    have he2' := he2.trades h2 (hT.takes2.not_isDefault hL hop.2)
    exact ⟨_, h', Ledger.forall_set (Ledger.forall_set hL he1' _) he2' _⟩
  | cancelOrder hr =>
    obtain ⟨e, pos, order, he, -, ho, h'⟩ := cancelOrder_spec h hr
    have hslotted := Ledger.entry_of_some he ▸ hL _
    exact ⟨_, h', Ledger.forall_set hL (hslotted.cancel ho) _⟩
  | setAccountL2Addr _ | setAccountNonce _ | setTokenBalance _ | keyUpdate _ | deposit _
  | transfer _ | withdraw _ | nop | flushWithNop | popAllBlocks => exact absurd ⟨id, nofun⟩ hsame

/-- The slots of every account are in order, in every state reached by such operations. -/
theorem exists_slotted {n : Node lv} {nTx persistEveryNBlock : ℕ} {blockOffset : Option ℕ}
    (hn : Exec.Reachable Node.step (fun _ op => op.KeepsSlots lv)
      (Node.new lv nTx blockOffset persistEveryNBlock) n) :
    ∃ L, Shows n.state L ∧ ∀ a, (L.entry a).Slotted := by
  refine hn.invariant ⟨_, shows_new lv, fun _ => .create lv (Nat.one_le_two_pow)⟩ ?_
  rintro m op m' - ⟨L, h, hL⟩ hop hst
  obtain ⟨raw, hr⟩ := Node.step_state hst
  exact apply_slotted h hL hop hr

/-! ## The slot of a new order -/

namespace GlobalState

/-- The order in the slot is filled or inactive, and has a smaller id. -/
def Replaceable (s : GlobalState lv) (accountId orderId pos : ℕ) : Prop :=
  ∃ o ∈ s.storedOrder accountId pos, (o.isFilled ∨ o.isActive = false) ∧ o.orderId < orderId

instance (s : GlobalState lv) (accountId orderId pos : ℕ) :
    Decidable (s.Replaceable accountId orderId pos) :=
  inferInstanceAs (Decidable (∃ o ∈ s.storedOrder accountId pos, _ ∧ _))

/-- How the slot of an order whose id is not recorded is chosen. -/
structure PicksSlots (s : GlobalState lv) (accountId : ℕ) (orders : BTreeMap ℕ Order)
    (start : ℕ) : Prop where
  /-- the slots in use are the first ones -/
  keys : ∀ pos, pos ∈ orders ↔ pos < orders.keys.length
  length_le : orders.keys.length ≤ 2 ^ lv.orderLevels
  free : orders.keys.length < 2 ^ lv.orderLevels →
    ∀ order, s.getOrderPosById accountId order.orderId = none →
      ∃ s', s.findOrInsertOrder accountId order = .ok ((orders.keys.length, Order.default), s')
  full : orders.keys.length = 2 ^ lv.orderLevels →
    ∀ order, s.getOrderPosById accountId order.orderId = none →
      match (positionsFrom start (2 ^ lv.orderLevels)).find? fun pos =>
        s.Replaceable accountId order.orderId pos with
      | some pos => ∃ old s', orders.lookup pos = some old ∧
        s.findOrInsertOrder accountId order = .ok ((pos, old), s')
      | none => s.findOrInsertOrder accountId order = .error (.explicit
        s!"Cannot find order pos, please use larger order tree height. account_id {accountId} order_id {order.orderId}")
  notOpen : ∀ order pos old s', s.getOrderPosById accountId order.orderId = none →
    s.findOrInsertOrder accountId order = .ok ((pos, old), s') →
      ∀ o ∈ orders.lookup pos, o.isFilled ∨ o.isActive = false

end GlobalState

omit [FluidexCommon] in
/-- The scan of the code looks at the slots from the cursor on, which is at most the number of
    slots. -/
theorem Levels.candidatePos_eq {next i : ℕ} (hnext : next ≤ 2 ^ lv.orderLevels)
    (hi : i < 2 ^ lv.orderLevels) :
    lv.candidatePos next i = (next + i) % 2 ^ lv.orderLevels := by
  have hle : 2 ^ lv.orderLevels ≤ 2 ^ 31 :=
    Nat.pow_le_pow_right two_pos (Nat.le_of_lt_succ lv.order_lt)
  have hlt : next + i < 2 ^ 32 := by omega
  rw [Levels.candidatePos, Nat.mod_eq_of_lt hlt]

namespace Entry.Slotted

variable {pos orderId : ℕ}

omit [FluidexCommon] in
/-- When all the slots are in use, each is taken or passed over. -/
theorem yields_or_passes (h : e.Slotted) (hfull : e.orders.keys.length = 2 ^ lv.orderLevels)
    (hn : e.orderPos orderId = none) (hpos : pos < 2 ^ lv.orderLevels) :
    ∃ o, e.orders.lookup pos = some o ∧
      (o.IsClosed ∧ o.orderId < orderId ∧ e.Yields orderId pos ∨
        ¬(o.IsClosed ∧ o.orderId < orderId) ∧ e.Passes orderId pos) := by
  obtain ⟨o, ho⟩ := Option.isSome_iff_exists.1
    (AList.lookup_isSome.2 ((h.filled pos).2 (hfull ▸ hpos)))
  have hat := Entry.orderAt_of_some ho
  have hne : o.orderId ≠ orderId := by
    rintro rfl
    have hrecorded := h.recorded pos o ho
    rw [hn] at hrecorded
    cases hrecorded
  refine ⟨o, ho, ?_⟩
  rw [Entry.Yields, Entry.Passes, hat]
  by_cases hold : o.IsClosed ∧ o.orderId < orderId
  · exact .inl ⟨hold.1, hold.2, h.sells pos o ho, hold⟩
  · refine .inr ⟨hold, h.sells pos o ho, fun hc => ?_⟩
    exact lt_of_le_of_ne (not_lt.1 fun hlt => hold ⟨hc, hlt⟩) hne.symm

theorem replaceable_iff (h : e.Slotted) (hs : Shows s L) (he : L a = some e)
    (hfull : e.orders.keys.length = 2 ^ lv.orderLevels) (hn : e.orderPos orderId = none)
    (hpos : pos < 2 ^ lv.orderLevels) : s.Replaceable a orderId pos ↔ e.Yields orderId pos := by
  obtain ⟨o, ho, hcase⟩ := h.yields_or_passes hfull hn hpos
  simp only [GlobalState.Replaceable, hs.storedOrder_of_some he, ho, Option.mem_def,
    Option.some.injEq, exists_eq_left']
  rcases hcase with ⟨hc, hlt, hy⟩ | ⟨hnot, hdef, hpass⟩
  · exact iff_of_true ⟨hc, hlt⟩ hy
  · exact iff_of_false hnot fun hy => absurd (hpass hy.2.1) hy.2.2.asymm

omit [FluidexCommon] in
theorem passes_of_not_yields (h : e.Slotted)
    (hfull : e.orders.keys.length = 2 ^ lv.orderLevels) (hn : e.orderPos orderId = none)
    (hpos : pos < 2 ^ lv.orderLevels) (hnot : ¬e.Yields orderId pos) : e.Passes orderId pos := by
  obtain ⟨o, -, ⟨-, -, hy⟩ | ⟨-, hp⟩⟩ := h.yields_or_passes hfull hn hpos
  · exact absurd hy hnot
  · exact hp

/-- The first slot that may be replaced, from the cursor on and around, is taken. -/
theorem finds_of_find? (h : e.Slotted) (hs : Shows s L) (he : L a = some e)
    (hfull : e.orders.keys.length = 2 ^ lv.orderLevels) (hn : e.orderPos orderId = none)
    (hfind : (positionsFrom e.nextOrderPos (2 ^ lv.orderLevels)).find?
      (fun pos => s.Replaceable a orderId pos) = some pos) :
    ∃ e', e.Finds orderId pos e' := by
  obtain ⟨hy, i, hi, hpos, hbefore⟩ := List.find?_eq_some_iff_getElem.1 hfind
  have hlt (j : ℕ) : lv.candidatePos e.nextOrderPos j < 2 ^ lv.orderLevels :=
    Nat.mod_lt _ (Nat.two_pow_pos _)
  have hi' : i < 2 ^ lv.orderLevels := by simpa only [length_positionsFrom] using hi
  rw [getElem_positionsFrom, ← Levels.candidatePos_eq h.next_le hi'] at hpos
  subst hpos
  refine ⟨_, .closed hn hfull hi' rfl (fun j hj => ?_) ?_⟩
  · have hno := hbefore j hj
    rw [getElem_positionsFrom, ← Levels.candidatePos_eq h.next_le (hj.trans hi')] at hno
    simp only [h.replaceable_iff hs he hfull hn (hlt j), Bool.not_eq_true', decide_eq_false_iff_not]
      at hno
    exact h.passes_of_not_yields hfull hn (hlt j) hno
  · simpa only [h.replaceable_iff hs he hfull hn (hlt i), decide_eq_true_eq] using hy

/-- There is no slot for the order if none may be replaced. -/
theorem findOrInsertOrder_of_find?_eq_none (h : e.Slotted) (hs : Shows s L) (he : L a = some e)
    (hfull : e.orders.keys.length = 2 ^ lv.orderLevels) {order : Order}
    (hn : e.orderPos order.orderId = none)
    (hfind : (positionsFrom e.nextOrderPos (2 ^ lv.orderLevels)).find?
      (fun pos => s.Replaceable a order.orderId pos) = none) :
    s.findOrInsertOrder a order = .error (.explicit
      s!"Cannot find order pos, please use larger order tree height. account_id {a} order_id {order.orderId}") := by
  -- the slots that are scanned are those from the cursor on, none of which may be replaced
  have hpass : ∀ i ∈ List.range (2 ^ lv.orderLevels),
      e.Passes order.orderId (lv.candidatePos e.nextOrderPos i) := by
    intro i hi
    have hi := List.mem_range.1 hi
    have hlt : lv.candidatePos e.nextOrderPos i < 2 ^ lv.orderLevels :=
      Nat.mod_lt _ (Nat.two_pow_pos _)
    have hno := List.find?_eq_none.1 hfind (lv.candidatePos e.nextOrderPos i)
      (List.mem_map.2 ⟨i, List.mem_range.2 hi, (Levels.candidatePos_eq h.next_le hi).symm⟩)
    rw [decide_eq_true_eq, h.replaceable_iff hs he hfull hn hlt] at hno
    exact h.passes_of_not_yields hfull hn hlt hno
  have hfull' : e.orders.keys.length = lv.maxOrderNumPerUser := hfull
  rw [GlobalState.findOrInsertOrder, GlobalState.getOrderPosById, hs.lookup_orderIdToPos he, hn]
  simp only [getNextOrderPosForUser_eq hs.toHolds he, assert, Exec.assert_of hfull'.le,
    Exec.ok_bind, if_neg hfull'.not_lt, replaceClosedOrder_of_passes hs.toHolds he hpass]
  rfl

/-- How the slots of an account that are in order are picked. -/
theorem picksSlots (h : e.Slotted) (hs : Shows s L) (he : L a = some e) :
    s.PicksSlots a e.orders e.nextOrderPos where
  keys := h.filled
  length_le := h.length_le
  free hlt order hn := by
    -- the slot after those in use is empty, so it reads as the default order
    rw [hs.getOrderPosById_eq he] at hn
    obtain ⟨s', hr, -⟩ := (Entry.Finds.free hn hlt h.filled.last).findOrInsertOrder hs he
    have hdefault : e.orderAt e.orders.keys.length = Order.default := by
      rw [Entry.orderAt, h.filled.lookup_length]
      rfl
    exact ⟨s', hdefault ▸ hr⟩
  full hfull order hn := by
    rw [hs.getOrderPosById_eq he] at hn
    split
    · next pos hfind =>
      obtain ⟨e', hf⟩ := h.finds_of_find? hs he hfull hn hfind
      obtain ⟨s', hr, -⟩ := hf.findOrInsertOrder hs he
      have hmem := AList.lookup_isSome.2 ((h.filled pos).2 (hfull ▸ hf.lt hn))
      obtain ⟨old, ho⟩ := Option.isSome_iff_exists.1 hmem
      exact ⟨old, s', ho, Entry.orderAt_of_some ho ▸ hr⟩
    · next hfind => exact h.findOrInsertOrder_of_find?_eq_none hs he hfull hn hfind
  notOpen order pos old s' hn hr o ho := by
    rw [hs.getOrderPosById_eq he] at hn
    obtain ⟨-, e', hf, -⟩ := findOrInsertOrder_finds hs he hr
    cases hf with
    | known hp =>
      rw [hn] at hp
      cases hp
    | free _ _ _ =>
      rw [h.filled.lookup_length] at ho
      cases ho
    | closed _ _ _ _ _ hy =>
      have hclosed := hy.2.1
      rwa [Entry.orderAt_of_some ho] at hclosed

end Entry.Slotted

/-- The slots of every account are in order, and are picked in order. -/
theorem picksSlots_of_keepsSlots {n : Node lv} {nTx persistEveryNBlock : ℕ}
    {blockOffset : Option ℕ}
    (hn : Exec.Reachable Node.step (fun _ op => op.KeepsSlots lv)
      (Node.new lv nTx blockOffset persistEveryNBlock) n) :
    ∀ accountId orders, n.state.orderStates.lookup accountId = some orders →
      ∃ start, n.state.nextOrderPositions.lookup accountId = some start ∧
        n.state.PicksSlots accountId orders start := by
  obtain ⟨L, h, hL⟩ := exists_slotted hn
  intro a orders ho
  rw [h.orderStates, Option.map_eq_some_iff] at ho
  obtain ⟨e, he, rfl⟩ := ho
  have hslotted := Ledger.entry_of_some he ▸ hL a
  exact ⟨e.nextOrderPos, h.lookup_nextOrderPositions he, hslotted.picksSlots h he⟩

end Slots

/-- After the authorised operations, a trade of another order of the first account, whose two
    slots are then in use. -/
def twoSlotsOps : List Op :=
  authorisedOps ++ [.fullSpotTrade .id
    ⟨⟨0, 1, 1, 0, 1, 1, 5, 4⟩, some { tenForTwelve with orderId := 5 }, none⟩ none]

attribute [local instance] FluidexCommon.sample in
/-- The slot after the last one in use has an open order, the next one, around, a cancelled one. -/
theorem picksSlots_twoSlotsOps :
    ∃ n orders, Exec.run Node.step (Node.new Levels.small 2 none 9) twoSlotsOps = .ok n ∧
      n.state.orderStates.lookup 0 = some orders ∧ orders.keys.length = 2 ∧
      (∃ old s', n.state.findOrInsertOrder 0 { tenForTwelve with orderId := 7 } =
        .ok ((0, old), s')) ∧
      ∃ start, n.state.nextOrderPositions.lookup 0 = some start ∧
        n.state.PicksSlots 0 orders start := by
  obtain ⟨⟨n, orders, r⟩, hn⟩ := Exec.exists_eq_ok (do
    let n ← Exec.run (Exec.guarded Node.step .unwrap fun _ op => op.KeepsSlots Levels.small)
      (Node.new Levels.small 2 none 9) twoSlotsOps
    let orders ← unwrap (n.state.orderStates.lookup 0)
    let r ← n.state.findOrInsertOrder 0 { tenForTwelve with orderId := 7 }
    assert (orders.keys.length = 2 ∧ r.1.1 = 0) "slots"
    pure (n, orders, r)) (by decide +kernel)
  simp only [Exec.bind_eq_ok_iff, Exec.assert_eq_ok_iff, Exec.pure_eq_ok_iff, Prod.mk.injEq,
    Exec.unwrap_eq_ok_iff] at hn
  obtain ⟨n, hn, orders, ho, ⟨⟨pos, old⟩, s'⟩, hr, _, ⟨hlen, rfl⟩, rfl, rfl, -⟩ := hn
  obtain ⟨hreach, hrun⟩ := Exec.Reachable.init.of_guarded hn
  exact ⟨n, orders, hrun, ho, hlen, ⟨old, s', hr⟩, picksSlots_of_keepsSlots hreach 0 orders ho⟩

end Rollup
