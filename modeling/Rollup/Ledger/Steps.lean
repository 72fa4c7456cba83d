import Rollup.Ledger.Transactions
import Rollup.Manager.Buffer

/-!
# Steps of the ledger

Whatever the operation, the ledger changes by creating accounts and by changing
one entry at a time, in a few ways (`Entry.Change`, `Ledger.Steps`): what is kept
by each of these changes is kept by every operation (`apply_steps`), hence holds
in every state that can be reached (`Node.reachable_ledger`).
-/

namespace Rollup

variable [FluidexCommon] {lv : Levels}

/-- The tokens whose balances an operation writes. -/
def Op.tokens : Op → List ℕ
  | .setTokenBalance _ tokenId _ => [tokenId]
  | .keyUpdate _ _ => [0]
  | .deposit tx _ => [tx.tokenId]
  | .transfer _ tx _ => [tx.tokenId]
  | .withdraw tx _ => [tx.tokenId]
  | .fullSpotTrade _ tx _ => [tx.trade.tokenId1to2, tx.trade.tokenId2to1]
  | _ => []

/-- The tokens of the operation have leaves in the balance trees. -/
def Op.InRange (lv : Levels) (op : Op) : Prop := ∀ token ∈ op.tokens, token < 2 ^ lv.balanceLevels

instance (lv : Levels) (op : Op) : Decidable (op.InRange lv) :=
  inferInstanceAs (Decidable (∀ token ∈ op.tokens, token < 2 ^ lv.balanceLevels))

/-- One change of an entry by an operation. -/
inductive Entry.Change (op : Op) (e : Entry lv) : Entry lv → Prop
  | l2Addr (sign ay : Fr) : Change op e (e.setL2Addr sign ay)
  | nonce (nonce : Fr) : Change op e (e.setNonce nonce).commit
  | setBalance {token : ℕ} {v : Fr} {t : Tree lv.balanceLevels} : token ∈ op.tokens →
      e.balanceTree.setValue token v = .ok t → Change op e (e.setBalanceTree t).commit
  | putBalances {updates : List (ℕ × Fr)} : (∀ u ∈ updates, u.1 ∈ op.tokens) →
      Change op e (e.putBalances updates).commit
  | setOrder {pos : ℕ} {order : Order} {t : Tree lv.orderLevels} : pos < 2 ^ lv.orderLevels →
      e.orderTree.setValue pos order.hash = .ok t → Change op e
        (((e.setOrderTree t).setOrder pos order).setOrderPos order.orderId pos).commit
  | cancel {orderId pos : ℕ} {order : Order} : e.orderPos orderId = some pos →
      e.orders.lookup pos = some order → Change op e (e.setOrder pos { order with isActive := false })
  | trade {order : Order} {pos : ℕ} {sell buy : Fr} {updates : List (ℕ × Fr)} {e' : Entry lv} :
      (∀ u ∈ updates, u.1 ∈ op.tokens) → e.Trades order pos sell buy updates e' → Change op e e'

/-- Creating accounts and changing entries, one at a time. -/
inductive Ledger.Steps (op : Op) (L : Ledger lv) : Ledger lv → Prop
  | refl : Steps op L L
  | create {L' : Ledger lv} {a : ℕ} (n : ℕ) : Steps op L L' → L' a = none →
      Steps op L (L'.set a (.create lv n))
  | change {L' : Ledger lv} {a : ℕ} {e e' : Entry lv} : Steps op L L' → L' a = some e →
      e.Change op e' → Steps op L (L'.set a e')

namespace Ledger.Steps

variable {op : Op} {L : Ledger lv}

/-- An account is created if it does not exist. -/
theorem entry (L : Ledger lv) (a : ℕ) : L.Steps op (L.set a (L.entry a)) := by
  cases he : L a with
  | none => rw [Ledger.entry, he]; exact .create _ .refl he
  | some e => rw [Ledger.entry_of_some he, Ledger.set_eq_self he]; exact .refl

/-- Changing the same entry again. -/
theorem again {L' : Ledger lv} {a : ℕ} {e e' : Entry lv} (h : L.Steps op (L'.set a e))
    (he : e.Change op e') : L.Steps op (L'.set a e') := by
  have h' := Steps.change h (L'.set_self a e) he
  rwa [L'.set_idem] at h'

theorem setNewL2Addr {L' : Ledger lv} {a : ℕ} {e : Entry lv} (h : L.Steps op (L'.set a e))
    (l2key : Option L2Key) : L.Steps op (L'.set a (e.setNewL2Addr l2key)) := by
  cases l2key with
  | none => exact h
  | some l2key => exact h.again (.l2Addr _ _)

end Ledger.Steps

variable {s s' : GlobalState lv} {L : Ledger lv}

theorem transfer_steps (h : Shows s L) {schedule : Shuffle Task} {tx : TransferTx}
    {offset : Option ℤ} {rawTx : RawTx}
    (hr : s.transfer schedule tx offset = .ok (rawTx, s')) :
    ∃ L', Shows s' L' ∧ L.Steps (.transfer schedule tx offset) L' := by
  obtain ⟨⟨⟨e, he, -⟩, -, f, hf⟩, htrans, -⟩ := transfer_spec h hr
  rcases eq_or_ne tx.fromId tx.toId with hft | hft
  · obtain ⟨updates, hupdates, h'⟩ := htrans.eq hft
    rw [Ledger.entry_of_some hf] at hupdates h'
    refine ⟨_, h', ?_⟩
    have hstart : L.Steps (.transfer schedule tx offset) (L.set tx.toId f) := by
      rw [Ledger.set_eq_self hf]
      exact .refl
    -- the balance that is written last
    have hput : f.Change (.transfer schedule tx offset) (f.putBalances updates).commit := by
      refine .putBalances ?_
      rcases hupdates with rfl | rfl <;> simp [Op.tokens, Entry.sent, Entry.received]
    exact ((hstart.again hput).again (.nonce _)).setNewL2Addr _
  · have h' := htrans.ne hft
    rw [Ledger.entry_of_some he, Ledger.entry_of_some hf] at h'
    refine ⟨_, h', ?_⟩
    have hsend : L.Steps (.transfer schedule tx offset) (L.set tx.fromId (e.send tx)) := by
      have hput : e.Change (.transfer schedule tx offset) (e.putBalances
          [(tx.tokenId, e.balance tx.tokenId - tx.amount.toFr)]).commit :=
        .putBalances (by simp [Op.tokens])
      exact (Ledger.Steps.change .refl he hput).again (.nonce (e.state.nonce + 1))
    have hf' : (L.set tx.fromId (e.send tx)) tx.toId = some f := by rwa [L.set_of_ne _ hft.symm]
    have hput : f.Change (.transfer schedule tx offset) (f.receive tx) :=
      .putBalances (by simp [Op.tokens])
    exact (hsend.change hf' hput).setNewL2Addr tx.l2key

theorem fullSpotTrade_steps (h : Shows s L) {schedule : Shuffle Task} {tx : FullSpotTradeTx}
    {offset : Option ℤ} {rawTx : RawTx}
    (hr : s.fullSpotTrade schedule tx offset = .ok (rawTx, s')) :
    ∃ L', Shows s' L' ∧ L.Steps (.fullSpotTrade schedule tx offset) L' := by
  obtain ⟨T, e1', e2', hT, h1, h2, h', -⟩ := fullSpotTrade_spec h hr
  have h1' : T.e1.Change (.fullSpotTrade schedule tx offset) e1' :=
    .trade (by simp [Op.tokens, Trade.updates1]) h1
  have h2' : T.e2.Change (.fullSpotTrade schedule tx offset) e2' :=
    .trade (by simp [Op.tokens, Trade.updates2]) h2
  have he2 : (L.set tx.trade.order1AccountId e1') tx.trade.order2AccountId = some T.e2 := by
    rw [L.set_of_ne _ hT.ne.symm, hT.entry2]
  exact ⟨_, h', (Ledger.Steps.change .refl hT.entry1 h1').change he2 h2'⟩

/-- Whatever the operation, the ledger changes by steps. -/
theorem apply_steps (h : Shows s L) {op : Op} {raw : Option RawTx}
    (hr : s.apply op = .ok (raw, s')) : ∃ L', Shows s' L' ∧ L.Steps op L' := by
  cases GlobalState.applied hr with
  | createNewAccount hr =>
    rcases createNewAccount_spec h hr with rfl | ⟨a, hnone, -, h'⟩
    · exact ⟨L, h, .refl⟩
    · exact ⟨_, h', .create _ .refl hnone⟩
  | setAccountL2Addr hr =>
    obtain ⟨e, he, h'⟩ := setAccountL2Addr_spec h hr
    exact ⟨_, h', .change .refl he (.l2Addr _ _)⟩
  | setAccountNonce hr =>
    obtain ⟨e, he, h'⟩ := setAccountNonce_spec h hr
    exact ⟨_, h', .change .refl he (.nonce _)⟩
  | setAccountOrder hr =>
    obtain ⟨e, t, he, hpos, ht, h'⟩ := setAccountOrder_spec h hr
    exact ⟨_, h', .change .refl he (.setOrder hpos ht)⟩
  | setTokenBalance hr =>
    obtain ⟨t, ht, h'⟩ := setTokenBalance_spec h hr
    -- The account may be created first.
    exact ⟨_, h', (Ledger.Steps.entry L _).again (.setBalance (by simp [Op.tokens]) ht)⟩
  | keyUpdate hr =>
    rcases keyUpdate_spec h hr with ⟨-, rfl⟩ | ⟨-, t, ht, h', -⟩
    · exact ⟨L, h, .refl⟩
    · exact ⟨_, h', ((Ledger.Steps.entry L _).again (.setBalance (by simp [Op.tokens]) ht)).again
        (.l2Addr _ _)⟩
  | deposit hr =>
    rcases deposit_spec h hr with ⟨-, rfl⟩ | ⟨-, t, ht, h', -⟩
    · exact ⟨L, h, .refl⟩
    · exact ⟨_, h',
        ((Ledger.Steps.entry L _).again (.setBalance (by simp [Op.tokens]) ht)).setNewL2Addr _⟩
  | transfer hr => exact transfer_steps h hr
  | withdraw hr =>
    obtain ⟨t, ht, h', -⟩ := withdraw_spec h hr
    exact ⟨_, h',
      ((Ledger.Steps.entry L _).again (.setBalance (by simp [Op.tokens]) ht)).again (.nonce _)⟩
  | fullSpotTrade hr => exact fullSpotTrade_steps h hr
  | cancelOrder hr =>
    obtain ⟨e, pos, order, he, hpos, horder, h'⟩ := cancelOrder_spec h hr
    exact ⟨_, h', .change .refl he (.cancel hpos horder)⟩
  | nop | flushWithNop | popAllBlocks => exact ⟨L, h, .refl⟩

/-- What is kept by the changes of the entries is kept by the steps of the ledger. -/
theorem Ledger.Steps.forall_entry {P : Entry lv → Prop} {op : Op} {L L' : Ledger lv}
    (h : L.Steps op L') (hcreate : ∀ n, P (.create lv n))
    (hchange : ∀ e e', P e → e.Change op e' → P e') (hP : ∀ a e, L a = some e → P e) :
    ∀ a e, L' a = some e → P e := by
  induction h with
  | refl => exact hP
  | create n _ _ ih =>
    intro b f hf
    rw [Ledger.set_apply] at hf
    split at hf
    · exact Option.some.inj hf ▸ hcreate n
    · exact ih b f hf
  | change _ he hch ih =>
    intro b f hf
    rw [Ledger.set_apply] at hf
    split at hf
    · exact Option.some.inj hf ▸ hchange _ _ (ih _ _ he) hch
    · exact ih b f hf

/-! ## Reachable states -/

namespace Node

variable {n n' : Node lv} {P : Entry lv → Prop}

/-- A state that shows a ledger leads to others that do. -/
theorem exists_shows_step {op : Op} (h : ∃ L, Shows n.state L) (hst : n.step op = .ok n') :
    ∃ L, Shows n'.state L := by
  obtain ⟨L, h⟩ := h
  obtain ⟨raw, hr⟩ := step_state hst
  obtain ⟨L', h', -⟩ := apply_steps h hr
  exact ⟨L', h'⟩

/-- Every reachable state shows a ledger. -/
theorem exists_shows {allowed : Node lv → Op → Prop} {nTx persistEveryNBlock : ℕ}
    {blockOffset : Option ℕ}
    (hn : Exec.Reachable Node.step allowed (Node.new lv nTx blockOffset persistEveryNBlock) n) :
    ∃ L, Shows n.state L :=
  hn.invariant ⟨_, shows_new lv⟩ fun _ _ _ _ h _ hst => exists_shows_step h hst

/-- A step keeps what new entries satisfy and what the changes of its operation keep. -/
theorem step_ledger (hcreate : ∀ k, P (.create lv k)) {op : Op}
    (hchange : ∀ e e', P e → e.Change op e' → P e') {L : Ledger lv} (h : Shows n.state L)
    (hP : ∀ a e, L a = some e → P e) (hst : n.step op = .ok n') :
    ∃ L', Shows n'.state L' ∧ ∀ a e, L' a = some e → P e := by
  obtain ⟨raw, hr⟩ := step_state hst
  obtain ⟨L', h', hsteps⟩ := apply_steps h hr
  exact ⟨L', h', hsteps.forall_entry hcreate hchange hP⟩

/-- Every reachable state shows a ledger, all of whose entries satisfy what new
    entries do and what the changes of the operations keep. -/
theorem reachable_ledger {allowed : Node lv → Op → Prop} {nTx persistEveryNBlock : ℕ}
    {blockOffset : Option ℕ} (hcreate : ∀ k, P (.create lv k))
    (hchange : ∀ n op e e', allowed n op → P e → e.Change op e' → P e')
    (hn : Exec.Reachable Node.step allowed (Node.new lv nTx blockOffset persistEveryNBlock) n) :
    ∃ L, Shows n.state L ∧ ∀ a e, L a = some e → P e := by
  refine hn.invariant ⟨_, shows_new lv, fun _ _ h => by cases h⟩ ?_
  rintro m op m' - ⟨L, h, hP⟩ hop hst
  exact step_ledger hcreate (fun e e' => hchange m op e e' hop) h hP hst

end Node

end Rollup
