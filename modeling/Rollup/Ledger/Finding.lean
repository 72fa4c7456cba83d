import Rollup.Ledger.Ops

/-!
# Finding the position of an order

Which position `findOrInsertOrder` returns, exactly: it is decided by the entry of the account
(`Entry.Finds`). `Entry.Place`, which is enough for what does not depend on the slot, follows.

When there is no free slot, the slots are scanned from `nextOrderPos` on. A slot is passed over
if its order is open, or has a larger id (`Entry.Passes`), and taken if its order is closed and
has a smaller one (`Entry.Yields`); anything else stops the scan.
-/

namespace Rollup

variable {lv : Levels} {s s' : GlobalState lv} {L : Ledger lv} {a : ℕ} {e e' : Entry lv}

/-! ## The scan -/

/-- The order may be replaced: it is filled, or cancelled. -/
def Order.IsClosed (o : Order) : Prop := o.isFilled ∨ o.isActive = false

instance (o : Order) : Decidable o.IsClosed := inferInstanceAs (Decidable (_ ∨ _))

/-- The slot that is looked at after `i` others. -/
def Levels.candidatePos (lv : Levels) (startPos i : ℕ) : ℕ :=
  (startPos + i) % 2 ^ 32 % 2 ^ lv.orderLevels

namespace Entry

/-- The slot is passed over in the search of one for a new order. -/
def Passes (e : Entry lv) (orderId pos : ℕ) : Prop :=
  ¬(e.orderAt pos).isDefault ∧ ((e.orderAt pos).IsClosed → orderId < (e.orderAt pos).orderId)

/-- The slot is taken. -/
def Yields (e : Entry lv) (orderId pos : ℕ) : Prop :=
  ¬(e.orderAt pos).isDefault ∧ (e.orderAt pos).IsClosed ∧ (e.orderAt pos).orderId < orderId

/-- Finding the position of an order, or giving it one, leads to the last entry. -/
inductive Finds (e : Entry lv) (orderId : ℕ) : ℕ → Entry lv → Prop
  | known {pos : ℕ} : e.orderPos orderId = some pos → Finds e orderId pos e
  | free : e.orderPos orderId = none → e.orders.keys.length < 2 ^ lv.orderLevels →
      e.orders.keys = [] ∨ e.orders.keys.max? = some (e.orders.keys.length - 1) →
      Finds e orderId e.orders.keys.length (e.setOrderPos orderId e.orders.keys.length)
  | closed {i pos : ℕ} : e.orderPos orderId = none → e.orders.keys.length = 2 ^ lv.orderLevels →
      i < 2 ^ lv.orderLevels → lv.candidatePos e.nextOrderPos i = pos →
      (∀ j < i, e.Passes orderId (lv.candidatePos e.nextOrderPos j)) → e.Yields orderId pos →
      Finds e orderId pos ((e.setNextOrderPos (pos + 1)).setOrderPos orderId pos)

end Entry

open GlobalState

/-- One slot is taken or passed over, unless the scan stops. -/
theorem replaceClosedOrder_cons_iff (h : Holds s L) (he : L a = some e)
    {orderId startPos pos i : ℕ} {is : List ℕ} :
    s.replaceClosedOrder a orderId startPos (i :: is) = .ok (pos, s') ↔
      (e.Yields orderId (lv.candidatePos startPos i) ∧ lv.candidatePos startPos i = pos ∧
        s' = { s with nextOrderPositions := s.nextOrderPositions.insert a (pos + 1) }) ∨
      (e.Passes orderId (lv.candidatePos startPos i) ∧
        s.replaceClosedOrder a orderId startPos is = .ok (pos, s')) := by
  simp only [replaceClosedOrder, h.getAccountOrderByPos_eq he, Exec.ok_bind,
    Exec.assert_bind_eq_ok_iff, Levels.candidatePos, Entry.Yields, Entry.Passes, Order.IsClosed]
  generalize (startPos + i) % 2 ^ 32 % 2 ^ lv.orderLevels = cand
  -- a closed order is replaced if it is older, an open one is passed over
  by_cases hclosed : (e.orderAt cand).isFilled ∨ (e.orderAt cand).isActive = false
  · rw [if_pos hclosed, Exec.assert_bind_eq_ok_iff]
    by_cases hlt : (e.orderAt cand).orderId < orderId
    · rw [if_pos hlt, Exec.pure_eq_ok_iff, Prod.mk.injEq]
      have hne : orderId ≠ (e.orderAt cand).orderId := hlt.ne'
      have hnot : ¬orderId < (e.orderAt cand).orderId := hlt.asymm
      constructor
      · rintro ⟨hdef, -, rfl, rfl⟩
        exact .inl ⟨⟨hdef, hclosed, hlt⟩, rfl, rfl⟩
      · rintro (⟨⟨hdef, -, -⟩, rfl, rfl⟩ | ⟨⟨-, hpass⟩, -⟩)
        · exact ⟨hdef, hne, rfl, rfl⟩
        · exact absurd (hpass hclosed) hnot
    · rw [if_neg hlt]
      constructor
      · rintro ⟨hdef, hne, hr⟩
        exact .inr ⟨⟨hdef, fun _ => lt_of_le_of_ne (not_lt.1 hlt) hne⟩, hr⟩
      · rintro (⟨⟨-, -, hyes⟩, -⟩ | ⟨⟨hdef, hpass⟩, hr⟩)
        · exact absurd hyes hlt
        · exact ⟨hdef, (hpass hclosed).ne, hr⟩
  · rw [if_neg hclosed]
    constructor
    · exact fun ⟨hdef, hr⟩ => .inr ⟨⟨hdef, fun hc => absurd hc hclosed⟩, hr⟩
    · rintro (⟨⟨-, hc, -⟩, -⟩ | ⟨⟨hdef, -⟩, hr⟩)
      · exact absurd hc hclosed
      · exact ⟨hdef, hr⟩

/-- The scan takes the first slot that is not passed over. -/
theorem replaceClosedOrder_ok_iff (h : Holds s L) (he : L a = some e) {orderId startPos pos : ℕ}
    {is : List ℕ} : s.replaceClosedOrder a orderId startPos is = .ok (pos, s') ↔
      ∃ passed i left, is = passed ++ i :: left ∧
        (∀ j ∈ passed, e.Passes orderId (lv.candidatePos startPos j)) ∧
        lv.candidatePos startPos i = pos ∧ e.Yields orderId pos ∧
        s' = { s with nextOrderPositions := s.nextOrderPositions.insert a (pos + 1) } := by
  induction is with
  | nil => simp [replaceClosedOrder]
  | cons i is ih =>
    rw [replaceClosedOrder_cons_iff h he, ih]
    constructor
    · -- The first slot yields, or it is passed and the search goes on.
      rintro (⟨hy, hpos, rfl⟩ | ⟨hp, passed, k, left, rfl, hpassed, hk, hy, rfl⟩)
      · exact ⟨[], i, is, rfl, by simp, hpos, hpos ▸ hy, rfl⟩
      · exact ⟨i :: passed, k, left, rfl, List.forall_mem_cons.2 ⟨hp, hpassed⟩, hk, hy, rfl⟩
    · rintro ⟨passed, k, left, heq, hpassed, hk, hy, rfl⟩
      cases passed with
      | nil =>
        obtain ⟨rfl, rfl⟩ := List.cons.inj heq
        exact .inl ⟨hk ▸ hy, hk, rfl⟩
      | cons j passed =>
        obtain ⟨rfl, rfl⟩ := List.cons.inj heq
        obtain ⟨hp, hpassed⟩ := List.forall_mem_cons.1 hpassed
        exact .inr ⟨hp, passed, k, left, rfl, hpassed, hk, hy, rfl⟩

/-- There is no slot if they are all passed over. -/
theorem replaceClosedOrder_of_passes (h : Holds s L) (he : L a = some e)
    {orderId startPos : ℕ} {is : List ℕ}
    (hpass : ∀ i ∈ is, e.Passes orderId (lv.candidatePos startPos i)) :
    s.replaceClosedOrder a orderId startPos is = .error (.explicit
      s!"Cannot find order pos, please use larger order tree height. account_id {a} order_id {orderId}") := by
  induction is with
  | nil => rfl
  | cons i is ih =>
    obtain ⟨hi, his⟩ := List.forall_mem_cons.1 hpass
    obtain ⟨hdef, hlt⟩ := hi
    rw [Levels.candidatePos] at hdef hlt
    simp only [replaceClosedOrder, h.getAccountOrderByPos_eq he, Exec.ok_bind, assert,
      Exec.assert_of hdef]
    split
    · next hclosed =>
      -- the order is closed, but not older
      have holder := hlt hclosed
      rw [Exec.assert_of holder.ne, Exec.ok_bind, if_neg holder.asymm, ih his]
    · exact ih his

/-- The same, for the scan of all the slots. -/
theorem replaceClosedOrder_range_ok_iff (h : Holds s L) (he : L a = some e)
    {orderId startPos pos n : ℕ} :
    s.replaceClosedOrder a orderId startPos (List.range n) = .ok (pos, s') ↔
      ∃ i < n, (∀ j < i, e.Passes orderId (lv.candidatePos startPos j)) ∧
        lv.candidatePos startPos i = pos ∧ e.Yields orderId pos ∧
        s' = { s with nextOrderPositions := s.nextOrderPositions.insert a (pos + 1) } := by
  rw [replaceClosedOrder_ok_iff h he]
  constructor
  · rintro ⟨passed, i, left, heq, hpassed, hrest⟩
    -- a first part of the numbers below `n` is that of the numbers below its length
    have hlen : passed.length < n := by
      have hlen := congrArg List.length heq
      simp only [List.length_range, List.length_append, List.length_cons] at hlen
      omega
    have hi : passed.length = i := by
      have hi := congrArg (·[passed.length]?) heq
      simpa [List.getElem?_range, hlen] using hi
    have hpre : passed = List.range i := by
      have hpre := congrArg (List.take passed.length) heq
      rw [List.take_range, List.take_left, Nat.min_eq_left hlen.le, hi] at hpre
      exact hpre.symm
    subst hpre
    exact ⟨i, hi ▸ hlen, fun j hj => hpassed j (List.mem_range.2 hj), hrest⟩
  · rintro ⟨i, hi, hpassed, hrest⟩
    refine ⟨List.range i, i, (List.range n).drop (i + 1), ?_,
      fun j hj => hpassed j (List.mem_range.1 hj), hrest⟩
    have hdrop : (List.range n).drop i = i :: (List.range n).drop (i + 1) := by
      rw [List.drop_eq_getElem_cons (by simpa using hi), List.getElem_range]
    rw [← hdrop, ← Nat.min_eq_left hi.le, ← List.take_range, Nat.min_eq_left hi.le,
      List.take_append_drop]

/-! ## The position -/

variable [FluidexCommon]

/-- The function, with what it reads of the account. -/
theorem getNextOrderPosForUser_eq (h : Holds s L) (he : L a = some e) (orderId : ℕ) :
    s.getNextOrderPosForUser a orderId = (do
      assert (e.orders.keys.length ≤ lv.maxOrderNumPerUser) "order_num <= self.max_order_num_per_user"
      if e.orders.keys.length < lv.maxOrderNumPerUser then
        assert (e.orders.keys = [] ∨ e.orders.keys.max? = some (e.orders.keys.length - 1))
          "the last order is at order_num - 1"
        pure (e.orders.keys.length, s)
      else s.replaceClosedOrder a orderId e.nextOrderPos (List.range (2 ^ lv.orderLevels))) := by
  rw [getNextOrderPosForUser, unwrap, h.lookup_orderStates he, h.lookup_nextOrderPositions he]
  rfl

theorem getNextOrderPosForUser_finds (h : Shows s L) (he : L a = some e) {orderId pos : ℕ}
    (hn : e.orderPos orderId = none) (hr : s.getNextOrderPosForUser a orderId = .ok (pos, s')) :
    ∃ e', Shows s' (L.set a e') ∧ e'.orders = e.orders ∧ e'.state = e.state ∧
      e.Finds orderId pos (e'.setOrderPos orderId pos) := by
  rw [getNextOrderPosForUser_eq h.toHolds he] at hr
  obtain ⟨hle, hr⟩ := Exec.assert_bind_eq_ok_iff.1 hr
  split at hr
  · next hlt =>
    obtain ⟨hlast, hr⟩ := Exec.assert_bind_eq_ok_iff.1 hr
    rw [Exec.pure_eq_ok_iff, Prod.mk.injEq] at hr
    obtain ⟨rfl, rfl⟩ := hr
    exact ⟨e, by rwa [Ledger.set_eq_self he], rfl, rfl, .free hn hlt hlast⟩
  · next hlt =>
    obtain ⟨i, hi, hpassed, hpos, hy, rfl⟩ := (replaceClosedOrder_range_ok_iff h.toHolds he).1 hr
    exact ⟨_, h.of_holds he (h.insertNextOrderPos he _) rfl rfl, rfl, rfl,
      .closed hn (le_antisymm hle (not_lt.1 hlt)) hi hpos hpassed hy⟩

/-- What is found is decided by the entry. -/
theorem findOrInsertOrder_finds (h : Shows s L) (he : L a = some e) {order old : Order} {pos : ℕ}
    (hr : s.findOrInsertOrder a order = .ok ((pos, old), s')) :
    old = e.orderAt pos ∧ ∃ e', e.Finds order.orderId pos e' ∧ Shows s' (L.set a e') := by
  unfold findOrInsertOrder getOrderPosById at hr
  rw [h.lookup_orderIdToPos he] at hr
  split at hr
  · next p hp =>
    simp only [h.getAccountOrderByPos_eq he, Exec.ok_bind, Exec.pure_eq_ok_iff,
      Prod.mk.injEq] at hr
    obtain ⟨⟨rfl, rfl⟩, rfl⟩ := hr
    exact ⟨rfl, e, .known hp, by rwa [Ledger.set_eq_self he]⟩
  · next hp =>
    -- the position is recorded after the slot has been found
    obtain ⟨⟨p, s₁⟩, hnext, hr⟩ := Exec.bind_eq_ok_iff.1 hr
    obtain ⟨e₁, h₁, horders, hstate, hfinds⟩ := getNextOrderPosForUser_finds h he hp hnext
    have he₁ := L.set_self a e₁
    simp only [h₁.getAccountOrderByPos_eq he₁, Exec.ok_bind] at hr
    obtain ⟨s₂, hset, hr⟩ := Exec.bind_eq_ok_iff.1 hr
    simp only [Exec.pure_eq_ok_iff, Prod.mk.injEq] at hr
    obtain ⟨⟨rfl, rfl⟩, rfl⟩ := hr
    obtain ⟨-, hset⟩ := Exec.assert_bind_eq_ok_iff.1 hset
    split at hset
    · cases hset
    · rw [Exec.pure_eq_ok_iff] at hset
      subst hset
      have h₂ := h₁.of_holds he₁ (h₁.insertOrderPos he₁ order.orderId p) rfl rfl
      rw [L.set_idem] at h₂
      refine ⟨?_, _, hfinds, h₂⟩
      rw [Entry.orderAt, Entry.orderAt, horders]

namespace Entry.Finds

variable {orderId pos : ℕ}

omit [FluidexCommon] in
/-- The last position in use is below the number of orders. -/
theorem lookup_length_eq_none {orders : BTreeMap ℕ Order}
    (hlast : orders.keys = [] ∨ orders.keys.max? = some (orders.keys.length - 1)) :
    orders.lookup orders.keys.length = none := by
  refine AList.lookup_eq_none.2 fun hmem => ?_
  rw [AList.mem_keys] at hmem
  rcases hlast with hnil | hmax
  · rw [hnil] at hmem
    cases hmem
  · have hlen := List.length_pos_of_mem hmem
    have := (List.max?_eq_some_iff.1 hmax).2 _ hmem
    omega

omit [FluidexCommon] in
theorem lt (h : e.Finds orderId pos e') (hn : e.orderPos orderId = none) :
    pos < 2 ^ lv.orderLevels := by
  cases h with
  | known hp => rw [hn] at hp; cases hp
  | free _ hlt _ => exact hlt
  | closed _ _ _ hpos _ _ => exact hpos ▸ Nat.mod_lt _ (Nat.two_pow_pos _)

omit [FluidexCommon] in
/-- A slot with an order that is not the default one is in use. -/
theorem lookup_of_not_isDefault (hdef : ¬(e.orderAt pos).isDefault) :
    e.orders.lookup pos = some (e.orderAt pos) := by
  rw [Entry.orderAt] at hdef ⊢
  cases hl : e.orders.lookup pos with
  | none => rw [hl] at hdef; exact absurd rfl hdef
  | some o => rfl

omit [FluidexCommon] in
theorem place (h : e.Finds orderId pos e') : e.Place orderId pos e' := by
  cases h with
  | known hp => exact .known hp
  | free hn hlt hlast => exact .new e.nextOrderPos hn (.free hlt (lookup_length_eq_none hlast))
  | closed hn hfull _ hpos _ hy =>
    obtain ⟨hdef, hclosed, hlt⟩ := hy
    exact .new _ hn (.closed hfull (hpos ▸ Nat.mod_lt _ (Nat.two_pow_pos _))
      (lookup_of_not_isDefault hdef) hdef hclosed hlt)

/-- A new position is recorded for the order. -/
theorem findOrInsertOrder_of_next (h : Shows s L) (he : L a = some e) {order : Order}
    (hn : e.orderPos order.orderId = none) (hlt : pos < 2 ^ lv.orderLevels) {s₁ : GlobalState lv}
    {e₁ : Entry lv} (hnext : s.getNextOrderPosForUser a order.orderId = .ok (pos, s₁))
    (h₁ : Shows s₁ (L.set a e₁)) (horders : e₁.orders = e.orders) :
    ∃ s', s.findOrInsertOrder a order = .ok ((pos, e.orderAt pos), s') ∧
      Shows s' (L.set a (e₁.setOrderPos order.orderId pos)) := by
  have he₁ := L.set_self a e₁
  have hat : e₁.orderAt pos = e.orderAt pos := by rw [Entry.orderAt, Entry.orderAt, horders]
  have hmem : a ∈ s₁.orderTrees := h₁.mem_orderTrees.2 (by rw [he₁]; rfl)
  have h₂ := h₁.of_holds he₁ (h₁.insertOrderPos he₁ order.orderId pos) rfl rfl
  rw [L.set_idem] at h₂
  refine ⟨_, ?_, h₂⟩
  rw [GlobalState.findOrInsertOrder, getOrderPosById, h.lookup_orderIdToPos he, hn]
  simp only [hnext, Exec.ok_bind, h₁.getAccountOrderByPos_eq he₁, hat, setOrderPosForId,
    assert, Exec.assert_of hmem, if_neg (not_le.2 hlt), pure_bind]
  rfl

/-- The position is found, whatever the rest of the state. -/
theorem findOrInsertOrder {order : Order} (hf : e.Finds order.orderId pos e') (h : Shows s L)
    (he : L a = some e) : ∃ s', s.findOrInsertOrder a order = .ok ((pos, e.orderAt pos), s') ∧
      Shows s' (L.set a e') := by
  have hunfold := getNextOrderPosForUser_eq h.toHolds he order.orderId
  cases hf with
  | known hp =>
    refine ⟨s, ?_, by rwa [Ledger.set_eq_self he]⟩
    rw [GlobalState.findOrInsertOrder, getOrderPosById, h.lookup_orderIdToPos he, hp]
    simp only [h.getAccountOrderByPos_eq he, Exec.ok_bind]
    rfl
  | free hn hlt hlast =>
    have hlt' : e.orders.keys.length < lv.maxOrderNumPerUser := hlt
    have hs : Shows s (L.set a e) := by rwa [Ledger.set_eq_self he]
    refine findOrInsertOrder_of_next h he hn hlt ?_ hs rfl
    rw [hunfold, assert, Exec.assert_of hlt'.le, Exec.ok_bind, if_pos hlt', assert,
      Exec.assert_of hlast]
    rfl
  | @closed i _ hn hfull hi hpos hpassed hy =>
    -- there is no free slot, and the scan stops at this one
    have hfull' : e.orders.keys.length = lv.maxOrderNumPerUser := hfull
    refine findOrInsertOrder_of_next h he hn (hpos ▸ Nat.mod_lt _ (Nat.two_pow_pos _)) ?_
      (h.of_holds he (h.insertNextOrderPos he (pos + 1)) rfl rfl) rfl
    rw [hunfold, assert, Exec.assert_of hfull'.le, Exec.ok_bind, if_neg hfull'.not_lt,
      replaceClosedOrder_range_ok_iff h.toHolds he]
    exact ⟨i, hi, hpassed, hpos, hy, rfl⟩

end Entry.Finds

end Rollup
