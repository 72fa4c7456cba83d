import Rollup.Lib.Bits
import Rollup.Types

/-!
# What the leaves commit to

The leaf of an order hashes its id and its tokens packed into one field element, and the leaf
of an account its nonce and the sign of its key. In range, they are packed without carries
and without reaching the order of the field (`Fr.number_inj`): if the hash has no collision
among what is hashed, the leaves of orders, and of accounts, are the same only if all that
they hash is (`hash_eq_iff_agrees`).
-/

namespace Rollup

/-- Fields that are packed into a field element are read back from it. -/
theorem Fr.number_inj {fields fields' : List Bits.Field}
    (hw : fields.map Bits.Field.width = fields'.map Bits.Field.width)
    (hlt : (fields.map Bits.Field.width).sum < 254) (hf : ∀ f ∈ fields, f.Fits)
    (hf' : ∀ f ∈ fields', f.Fits)
    (h : ((Bits.number fields : ℕ) : Fr) = (Bits.number fields' : ℕ)) : fields = fields' := by
  refine Bits.number_inj hw hf hf' ?_
  have hval := congrArg ZMod.val h
  rwa [Fr.val_natCast (Bits.number_lt hf) hlt, Fr.val_natCast (Bits.number_lt hf') (hw ▸ hlt)] at hval

section Commitments

variable [FluidexCommon]

/-! ## Orders -/

namespace Order

/-- The id and the tokens, as they are packed. -/
def packed (o : Order) : List Bits.Field :=
  [⟨o.orderId, 32⟩, ⟨o.tokenBuy.val, 32⟩, ⟨o.tokenSell.val, 32⟩]

/-- What is hashed. -/
def hashInputs (o : Order) : List Fr :=
  [o.orderId + Fr.shl o.tokenBuy 32 + Fr.shl o.tokenSell 64,
    o.filledSell, o.filledBuy, o.totalSell, o.totalBuy]

theorem hash_eq (o : Order) : o.hash = Fr.hash o.hashInputs := rfl

/-- The id is a `u32`, and so are the tokens. -/
structure InRange (o : Order) : Prop where
  orderId : o.orderId < 2 ^ 32
  tokenBuy : o.tokenBuy.val < 2 ^ 32
  tokenSell : o.tokenSell.val < 2 ^ 32

/-- The orders are the same, as far as the circuit is concerned. -/
structure Agrees (o o' : Order) : Prop where
  orderId : o.orderId = o'.orderId
  tokenBuy : o.tokenBuy = o'.tokenBuy
  tokenSell : o.tokenSell = o'.tokenSell
  filledSell : o.filledSell = o'.filledSell
  filledBuy : o.filledBuy = o'.filledBuy
  totalSell : o.totalSell = o'.totalSell
  totalBuy : o.totalBuy = o'.totalBuy

omit [FluidexCommon] in
theorem number_packed (o : Order) : ((Bits.number o.packed : ℕ) : Fr) =
    o.orderId + Fr.shl o.tokenBuy 32 + Fr.shl o.tokenSell 64 := by
  simp only [packed, Bits.number, Fr.shl]
  push_cast
  rw [ZMod.natCast_zmod_val, ZMod.natCast_zmod_val]
  ring

omit [FluidexCommon] in
theorem InRange.fits {o : Order} (h : o.InRange) : ∀ f ∈ o.packed, f.Fits := by
  simp only [packed, List.forall_mem_cons]
  exact ⟨h.orderId, h.tokenBuy, h.tokenSell, List.forall_mem_nil _⟩

omit [FluidexCommon] in
theorem hashInputs_eq_iff {o o' : Order} (ho : o.InRange) (ho' : o'.InRange) :
    o.hashInputs = o'.hashInputs ↔ o.Agrees o' := by
  constructor
  · intro h
    rw [hashInputs, hashInputs, ← number_packed, ← number_packed] at h
    simp only [List.cons.injEq, and_true] at h
    obtain ⟨hpacked, hfilledSell, hfilledBuy, htotalSell, htotalBuy⟩ := h
    have hfields : o.packed = o'.packed :=
      Fr.number_inj rfl (show 96 < 254 by decide) ho.fits ho'.fits hpacked
    simp only [packed, List.cons.injEq, Bits.Field.mk.injEq, and_true] at hfields
    obtain ⟨hid, hbuy, hsell⟩ := hfields
    exact ⟨hid, ZMod.val_injective _ hbuy, ZMod.val_injective _ hsell, hfilledSell, hfilledBuy,
      htotalSell, htotalBuy⟩
  · rintro ⟨hid, hbuy, hsell, hfilledSell, hfilledBuy, htotalSell, htotalBuy⟩
    rw [hashInputs, hashInputs, hid, hbuy, hsell, hfilledSell, hfilledBuy, htotalSell, htotalBuy]

end Order

/-! ## Accounts -/

namespace AccountState

/-- The nonce and the sign, as they are packed. -/
def packed (acc : AccountState) : List Bits.Field := [⟨acc.nonce.val, 40⟩, ⟨acc.sign.val, 1⟩]

/-- What is hashed. -/
def hashInputs (acc : AccountState) : List Fr :=
  [acc.nonce + Fr.shl acc.sign 40, acc.balanceRoot, acc.ay, acc.orderRoot]

theorem hash_eq (acc : AccountState) : acc.hash = Fr.hash acc.hashInputs := rfl

/-- The nonce has 40 bits, and the sign one. -/
structure InRange (acc : AccountState) : Prop where
  nonce : acc.nonce.val < 2 ^ 40
  sign : acc.sign = 0 ∨ acc.sign = 1

omit [FluidexCommon] in
theorem number_packed (acc : AccountState) :
    ((Bits.number acc.packed : ℕ) : Fr) = acc.nonce + Fr.shl acc.sign 40 := by
  simp only [packed, Bits.number, Fr.shl]
  push_cast
  rw [ZMod.natCast_zmod_val, ZMod.natCast_zmod_val]
  ring

omit [FluidexCommon] in
theorem InRange.fits {acc : AccountState} (h : acc.InRange) : ∀ f ∈ acc.packed, f.Fits := by
  have hsign : acc.sign.val < 2 ^ 1 := by
    rcases h.sign with h0 | h1
    · rw [h0]
      decide
    · rw [h1]
      decide
  simp only [packed, List.forall_mem_cons]
  exact ⟨h.nonce, hsign, List.forall_mem_nil _⟩

omit [FluidexCommon] in
theorem hashInputs_inj {acc acc' : AccountState} (ha : acc.InRange) (ha' : acc'.InRange)
    (h : acc.hashInputs = acc'.hashInputs) : acc = acc' := by
  rw [hashInputs, hashInputs, ← number_packed, ← number_packed] at h
  simp only [List.cons.injEq, and_true] at h
  obtain ⟨hpacked, hbalanceRoot, hay, horderRoot⟩ := h
  have hfields : acc.packed = acc'.packed :=
    Fr.number_inj rfl (show 41 < 254 by decide) ha.fits ha'.fits hpacked
  simp only [packed, List.cons.injEq, Bits.Field.mk.injEq, and_true] at hfields
  obtain ⟨hnonce, hsign⟩ := hfields
  cases acc
  cases acc'
  simp only [AccountState.mk.injEq]
  exact ⟨ZMod.val_injective _ hnonce, ZMod.val_injective _ hsign, hbalanceRoot, hay, horderRoot⟩

end AccountState

/-! ## Leaves -/

/-- Leaves commit to all that they hash. No function to the field is free of collisions on all
    lists: `inputs` are those on which the hash is, whatever they are. -/
theorem hash_eq_iff_agrees {inputs : Set (List Fr)} (hfree : Set.InjOn Fr.hash inputs) :
    (∀ o o' : Order, o.InRange → o'.InRange → o.hashInputs ∈ inputs → o'.hashInputs ∈ inputs →
      (o.hash = o'.hash ↔ o.Agrees o')) ∧
    ∀ acc acc' : AccountState, acc.InRange → acc'.InRange → acc.hashInputs ∈ inputs →
      acc'.hashInputs ∈ inputs → (acc.hash = acc'.hash ↔ acc = acc') := by
  refine ⟨fun o o' ho ho' hmem hmem' => ?_, fun acc acc' ha ha' hmem hmem' => ?_⟩
  · rw [← Order.hashInputs_eq_iff ho ho', o.hash_eq, o'.hash_eq, hfree.eq_iff hmem hmem']
  · refine ⟨fun h => ?_, congrArg AccountState.hash⟩
    rw [acc.hash_eq, acc'.hash_eq, hfree.eq_iff hmem hmem'] at h
    exact AccountState.hashInputs_inj ha ha' h

end Commitments

/-- The order with the highest id, which buys the token `1`. -/
def lastOrder : Order :=
  { Order.default with orderId := 2 ^ 32 - 1, tokenBuy := 1, totalSell := 5, totalBuy := 6 }

/-- The last nonce, with the other sign. -/
def lastAccount : AccountState := ⟨2 ^ 40 - 1, 1, 7, 8, 9⟩

attribute [local instance] FluidexCommon.sample in
/-- The order with the id `0` and the next token, and the account with the nonce `0`, do not have
    their leaves. -/
theorem hash_eq_iff_agrees_last :
    lastOrder.hash ≠ { lastOrder with orderId := 0, tokenBuy := 2 }.hash ∧
      lastOrder.hash = { lastOrder with accountId := 3, side := .sell }.hash ∧
      lastAccount.hash ≠ { lastAccount with nonce := 0 }.hash := by
  let others : Order × AccountState :=
    ({ lastOrder with orderId := 0, tokenBuy := 2 }, { lastAccount with nonce := 0 })
  let inputs : List (List Fr) := [lastOrder.hashInputs, others.1.hashInputs,
    lastAccount.hashInputs, others.2.hashInputs]
  have hfree : Set.InjOn Fr.hash {l | l ∈ inputs} := by
    have h : ∀ l ∈ inputs, ∀ l' ∈ inputs, Fr.hash l = Fr.hash l' → l = l' := by decide +kernel
    exact fun l hl l' hl' => h l hl l' hl'
  obtain ⟨horder, haccount⟩ := hash_eq_iff_agrees hfree
  have hlast : lastOrder.InRange := ⟨by decide, by decide, by decide⟩
  refine ⟨fun h => ?_, ?_, fun h => ?_⟩
  · have hagrees := (horder _ others.1 hlast ⟨by decide, by decide, by decide⟩ (by simp [inputs])
      (by simp [inputs])).1 h
    exact absurd hagrees.orderId (by decide)
  · exact (horder _ { lastOrder with accountId := 3, side := .sell } hlast
      ⟨by decide, by decide, by decide⟩ (by simp [inputs]) (by simp [inputs, Order.hashInputs])).2
      ⟨rfl, rfl, rfl, rfl, rfl, rfl, rfl⟩
  · have hsame := (haccount _ others.2 ⟨by decide, .inr rfl⟩ ⟨by decide, .inr rfl⟩
      (by simp [inputs]) (by simp [inputs])).1 h
    exact absurd (congrArg AccountState.nonce hsame) (by decide)

end Rollup
