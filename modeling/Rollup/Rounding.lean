import Rollup.Operations
import Rollup.Resuming
import Rollup.Withdrawals

/-!
# In step with the exchange

A deposit or a withdrawal is a message with the change of a balance and the balance after it,
and the processor asserts that the balance before it is the one it has stored. It stores the sum
of the changes, each rounded down to a unit, and compares it with a balance of the exchange,
which is rounded down once. So two changes by half a unit are lost for the one, and a unit for
the other: from then on, every message for this balance is a panic (`not_inStep_halves`).

The two are in step exactly as long as the fractions that are cut off, of the change and of the
lower of the balances before and after it, are less than a unit together
(`inStep_iff`).
-/

namespace Rollup

section Rounding

open RustDecimal

/-- The sum is rounded down as its terms are. -/
theorem floor_add_floor_iff {p q : ℚ} :
    ⌊p⌋ + ⌊q⌋ = ⌊p + q⌋ ↔ Int.fract p + Int.fract q < 1 := by
  have hp := Int.floor_add_fract p
  have hq := Int.floor_add_fract q
  have hp0 := Int.fract_nonneg p
  have hq0 := Int.fract_nonneg q
  rw [eq_comm, Int.floor_eq_iff]
  push_cast
  constructor
  · rintro ⟨-, hlt⟩
    linarith
  · intro hlt
    constructor <;> linarith

variable [RustDecimal]

/-! ## Changes of a balance -/

/-- What the message of a deposit or of a withdrawal says of a balance. -/
structure BalanceChange where
  userId : ℕ
  asset : String
  change : Decimal
  /-- The balance after the change. -/
  balance : Decimal

/-- The deposits and the withdrawals say a change and the balance after it. -/
def WrappedMessage.balanceChange : WrappedMessage → Option BalanceChange
  | .deposit m => some ⟨m.message.userId, m.message.asset, m.message.change, m.message.balance⟩
  | .withdraw m => some ⟨m.message.userId, m.message.asset, m.message.change, m.message.balance⟩
  | _ => none

namespace BalanceChange

/-- The change is one of the balance `d` of the asset, and leaves a balance, in the range of an
    amount. -/
structure Follows (c : BalanceChange) (a : ℕ) (asset : String) (prec : ℕ) (d : Decimal) : Prop where
  userId : c.userId = a
  asset : c.asset = asset
  balance : value c.balance = value d + value c.change
  nonneg : 0 ≤ value c.balance
  fits : ⌊value c.balance * 10 ^ prec⌋ < 2 ^ 64

/-- What is cut off the change, and what is cut off the lower of the two balances, is less than
    a unit together. -/
def AddsUp (c : BalanceChange) (prec : ℕ) : Prop :=
  Int.fract (min (value c.balance - value c.change) (value c.balance) * 10 ^ prec) +
    Int.fract (|value c.change| * 10 ^ prec) < 1

end BalanceChange

/-- The messages are changes of the balance of an asset of an account, each from the balance
    that the one before it leaves. -/
def Consistent (a : ℕ) (asset : String) (prec : ℕ) : Decimal → List Received → Prop
  | _, [] => True
  | d, .timeout :: rs => Consistent a asset prec d rs
  | d, .msg m _ :: rs => ∃ c, m.balanceChange = some c ∧ c.Follows a asset prec d ∧
      Consistent a asset prec c.balance rs

/-- A decimal is converted if it is in the range of an amount. -/
def RustDecimal.Converts : Prop :=
  ∀ d prec, 0 ≤ value d → ⌊value d * 10 ^ prec⌋ < 2 ^ 64 → ∃ x, toFr d prec = .ok x

namespace BalanceChange

variable {c : BalanceChange} {prec : ℕ}

theorem addsUp_of_deposit (h : 0 ≤ value c.change) : c.AddsUp prec ↔
    ⌊(value c.balance - value c.change) * 10 ^ prec⌋ + ⌊value c.change * 10 ^ prec⌋ =
      ⌊value c.balance * 10 ^ prec⌋ := by
  have hsum : (value c.balance - value c.change) * 10 ^ prec + value c.change * 10 ^ prec =
      value c.balance * 10 ^ prec := by ring
  rw [AddsUp, min_eq_left (by linarith), abs_of_nonneg h, ← floor_add_floor_iff, hsum]

theorem addsUp_of_withdrawal (h : value c.change ≤ 0) : c.AddsUp prec ↔
    ⌊value c.balance * 10 ^ prec⌋ + ⌊-value c.change * 10 ^ prec⌋ =
      ⌊(value c.balance - value c.change) * 10 ^ prec⌋ := by
  have hsum : value c.balance * 10 ^ prec + -value c.change * 10 ^ prec =
      (value c.balance - value c.change) * 10 ^ prec := by ring
  rw [AddsUp, min_eq_right (by linarith), abs_of_nonpos h, ← floor_add_floor_iff, hsum]

end BalanceChange

/-! ## Messages that are handled -/

variable [FluidexCommon] {lv : Levels} {n n' : Node lv} {L : Ledger lv}

omit [RustDecimal] in
/-- A deposit with the key of the account adds the amount, in the field. -/
theorem deposit_balance {s s' : GlobalState lv} {offset : Option ℤ} (h : Shows s L) {tx : DepositTx}
    (hkey : tx.l2key = none) {rawTx : RawTx} (hr : s.deposit tx offset = .ok (.ok rawTx, s')) :
    s'.getTokenBalance tx.accountId tx.tokenId =
      .ok ((L.entry tx.accountId).balance tx.tokenId + tx.amount.toFr) := by
  rcases deposit_spec h hr with ⟨hnone, -⟩ | ⟨hacc, t, ht, h', -⟩
  · cases hnone
  · have hay : (L.entry tx.accountId).state.ay ≠ 0 := (h.hasAccount_iff _).1 (hacc.1 hkey)
    rw [hkey] at h'
    exact h'.getTokenBalance_set hay ht

/-- A deposit that is handled starts from the balance that is stored, and stores the sum. -/
theorem handleDepositMsg_spec (hd : Documented) (h : Shows n.state L) (p : Processor)
    {message : Message DepositMessage} (hr : p.handleDepositMsg n message = .ok n') :
    ∃ tokenId prec, ∃ old : Fr, ∃ amount : ℕ, getTokenIdByName message.message.asset = .ok tokenId ∧
      precTokenId tokenId = .ok prec ∧ amount < 2 ^ 64 ∧
      (amount : ℤ) = ⌊value message.message.change * 10 ^ prec⌋ ∧
      (old.val : ℤ) =
        ⌊nearest (value message.message.balance - value message.message.change) * 10 ^ prec⌋ ∧
      n'.state.getTokenBalance message.message.userId tokenId = .ok (old + amount) := by
  obtain ⟨-, hr⟩ := Exec.assert_bind_eq_ok_iff.1 hr
  obtain ⟨tokenId, htoken, hr⟩ := Exec.bind_eq_ok_iff.1 hr
  obtain ⟨balanceBefore, hsub, hr⟩ := Exec.bind_eq_ok_iff.1 hr
  obtain ⟨hsign, hr⟩ := Exec.assert_bind_eq_ok_iff.1 hr
  rw [h.getTokenBalance_eq, Exec.ok_bind] at hr
  obtain ⟨prec, hprec, hr⟩ := Exec.bind_eq_ok_iff.1 hr
  obtain ⟨oldBalance, hold, hr⟩ := Exec.bind_eq_ok_iff.1 hr
  obtain ⟨heq, hr⟩ := Exec.assert_bind_eq_ok_iff.1 hr
  obtain ⟨amount, hamount, hr⟩ := Exec.bind_eq_ok_iff.1 hr
  obtain ⟨⟨result, s⟩, happly, hr⟩ := Exec.bind_eq_ok_iff.1 hr
  obtain ⟨rawTx, hraw, hr⟩ := Exec.bind_eq_ok_iff.1 hr
  obtain rfl : result = some rawTx := Exec.unwrap_eq_ok_iff.1 hraw
  obtain rfl := Except.ok.inj hr
  -- the amount is a `u64`, so that the `u128` is the same number
  have hlt : amount.toNat < 2 ^ 128 := amount.toNat_lt.trans (by norm_num)
  refine ⟨tokenId, prec, oldBalance, amount.toNat, htoken, hprec, amount.toNat_lt,
    hd.toU64_eq _ _ _ hamount, ?_, ?_⟩
  · rw [← hd.value_sub _ _ _ hsub, ← hd.toFr_eq _ _ _ (hd.nonneg _ hsign) hold]
  · obtain ⟨⟨r, s₁⟩, hdeposit, hret⟩ := Exec.bind_eq_ok_iff.1 happly
    rw [Exec.pure_eq_ok_iff, Prod.mk.injEq] at hret
    obtain ⟨hsome, rfl⟩ := hret
    rw [Exec.toOption_eq_some_iff] at hsome
    subst hsome
    refine (deposit_balance h rfl hdeposit).trans ?_
    rw [heq, U128.toFr, BitVec.toNat_ofNat, Nat.mod_eq_of_lt hlt]

/-! ## Rounding -/

/-- The balance of the message is the one that is stored. -/
def GlobalState.Stores (s : GlobalState lv) (c : BalanceChange) : Prop :=
  ∃ tokenId prec x, getTokenIdByName c.asset = .ok tokenId ∧ precTokenId tokenId = .ok prec ∧
    toFr c.balance prec = .ok x ∧ s.getTokenBalance c.userId tokenId = .ok x

/-- The assertion on the balance before the change is true if it is reached. -/
def GlobalState.Expects (s : GlobalState lv) (c : BalanceChange) : Prop :=
  ∀ tokenId prec balanceBefore x expectedBalanceBefore, getTokenIdByName c.asset = .ok tokenId →
    precTokenId tokenId = .ok prec → sub c.balance c.change = .ok balanceBefore →
    toFr balanceBefore prec = .ok x →
    s.getTokenBalance c.userId tokenId = .ok expectedBalanceBefore → expectedBalanceBefore = x

/-- What is stored is the balance of the exchange, rounded down. -/
def GlobalState.Rounds (s : GlobalState lv) (a tokenId prec : ℕ) (d : Decimal) : Prop :=
  ∃ y, s.getTokenBalance a tokenId = .ok y ∧ (y.val : ℤ) = ⌊value d * 10 ^ prec⌋

variable {a tokenId prec : ℕ} {asset : String} {d : Decimal} {c : BalanceChange}

theorem rounds_iff {s : GlobalState lv} {y : Fr} (hy : s.getTokenBalance a tokenId = .ok y) :
    s.Rounds a tokenId prec d ↔ (y.val : ℤ) = ⌊value d * 10 ^ prec⌋ := by
  rw [GlobalState.Rounds, hy]
  constructor
  · rintro ⟨_, heq, hval⟩
    rwa [← Except.ok.inj heq] at hval
  · exact fun hval => ⟨y, rfl, hval⟩

omit [RustDecimal] [FluidexCommon] in
theorem nonneg_of_units {q : ℚ} {n : ℕ} (h : (n : ℤ) = ⌊q * 10 ^ prec⌋) : 0 ≤ q := by
  have hmul : 0 ≤ q * 10 ^ prec := Int.floor_nonneg.1 (h ▸ Int.natCast_nonneg n)
  exact nonneg_of_mul_nonneg_left hmul (by positivity)

/-- What a deposit stores is rounded down as the balance is exactly if it adds up. -/
theorem deposit_rounds_iff (hd : Documented) (h : Shows n.state L)
    (htoken : getTokenIdByName asset = .ok tokenId) (hprec : precTokenId tokenId = .ok prec)
    (hfits : ⌊value d * 10 ^ prec⌋ < 2 ^ 64) {message : Message DepositMessage}
    (hc : (WrappedMessage.deposit message).balanceChange = some c)
    (hfollows : c.Follows a asset prec d) (p : Processor)
    (hr : p.handleDepositMsg n message = .ok n') :
    n'.state.Rounds a tokenId prec c.balance ↔ c.AddsUp prec := by
  obtain ⟨tokenId', prec', old, amount, htoken', hprec', hlt, hamount, hold, hnew⟩ :=
    handleDepositMsg_spec hd h p hr
  obtain rfl := Option.some.inj hc
  obtain ⟨rfl, rfl, hbalance, -, -⟩ := hfollows
  obtain rfl := Except.ok.inj (htoken.symm.trans htoken')
  obtain rfl := Except.ok.inj (hprec.symm.trans hprec')
  dsimp only at hbalance
  have hbefore : value message.message.balance - value message.message.change = value d := by
    linarith
  rw [hbefore, hd.nearest_value] at hold
  -- the sum is smaller than the field
  have hval : (amount : Fr).val = amount := Fr.val_natCast hlt (by decide)
  have hsum : old.val + (amount : Fr).val < Fr.modulus := by
    have hmod : 2 ^ 65 < Fr.modulus := by decide
    omega
  rw [rounds_iff hnew, ZMod.val_add_of_lt hsum, hval, Nat.cast_add, hold, hamount,
    BalanceChange.addsUp_of_deposit (nonneg_of_units hamount), hbefore]

theorem withdraw_rounds_iff [Babyjubjub] (hd : Documented) (h : Shows n.state L)
    (htoken : getTokenIdByName asset = .ok tokenId) (hprec : precTokenId tokenId = .ok prec)
    {message : Message WithdrawMessage}
    (hc : (WrappedMessage.withdraw message).balanceChange = some c)
    (hfollows : c.Follows a asset prec d)
    (hr : Processor.default.handleWithdrawMsg n message = .ok n') :
    n'.state.Rounds a tokenId prec c.balance ↔ c.AddsUp prec := by
  obtain ⟨tx, prec', hissues, hkey, hst, hold⟩ := handleWithdrawMsg_spec hd h hr
  obtain rfl := Option.some.inj hc
  obtain ⟨rfl, rfl, hbalance, hnonneg, -⟩ := hfollows
  obtain rfl := Except.ok.inj (htoken.symm.trans hissues.tokenId)
  obtain rfl := Except.ok.inj (hprec.symm.trans hissues.precision)
  -- the balance covers the amount
  have hcovered := (WithdrawMessage.covered_iff _ prec).1
    (WithdrawMessage.covered_of_nonneg hd hnonneg prec)
  rw [← hissues.amount, ← hold, Int.ofNat_le] at hcovered
  have hchange := nonneg_of_units hissues.amount
  dsimp only at hbalance
  have hbefore : value message.message.balance - value message.message.change = value d := by
    linarith
  rw [hbefore, hd.nearest_value] at hold
  obtain ⟨raw, happly⟩ := Node.step_state hst
  cases GlobalState.applied happly with
  | withdraw hr =>
    have hnew := withdraw_balance h hkey hr
    rw [hissues.accountId] at hnew hold hcovered
    rw [rounds_iff hnew, ZMod.val_sub (by rwa [U128.toFr_val]), U128.toFr_val,
      Nat.cast_sub hcovered, hold, hissues.amount, BalanceChange.addsUp_of_withdrawal (by linarith),
      hbefore, sub_eq_iff_eq_add, eq_comm]

/-! ## Runs -/

/-- Nothing changes while waiting in vain. -/
def Received.balanceChange : Received → Option BalanceChange
  | .msg m _ => m.balanceChange
  | .timeout => none

omit [RustDecimal] in
theorem state_of_pop (hst : n.step .popAllBlocks = .ok n') : n'.state = n.state := by
  obtain ⟨raw, hr⟩ := Node.step_state hst
  exact (Prod.mk.inj (Except.ok.inj hr)).2.symm

variable [Babyjubjub] [DecimalExt] [UserKey]

theorem state_of_timeout (hr : n.processMsg .timeout = .ok n') : n'.state = n.state := by
  obtain ⟨n₁, hrec, hpop⟩ := Exec.bind_eq_ok_iff.1 hr
  rw [state_of_pop hpop]
  rw [Node.receive] at hrec
  split at hrec
  · obtain ⟨raw, happly⟩ := Node.step_state hrec
    exact (Prod.mk.inj (Except.ok.inj happly)).2.symm
  · rw [Except.ok.inj hrec]

/-- What a change stores is rounded down as the balance is exactly if it adds up. -/
theorem rounds_iff_of_processMsg (hd : Documented) (h : ∃ L, Shows n.state L)
    (htoken : getTokenIdByName asset = .ok tokenId) (hprec : precTokenId tokenId = .ok prec)
    (hfits : ⌊value d * 10 ^ prec⌋ < 2 ^ 64) {r : Received} (hc : r.balanceChange = some c)
    (hfollows : c.Follows a asset prec d) (hr : n.processMsg r = .ok n') :
    n'.state.Rounds a tokenId prec c.balance ↔ c.AddsUp prec := by
  obtain ⟨L, hL⟩ := h
  cases r with
  | timeout => cases hc
  | msg m schedule =>
    obtain ⟨n₁, hrec, hpop⟩ := Exec.bind_eq_ok_iff.1 hr
    rw [state_of_pop hpop]
    cases m with
    | deposit m =>
      exact deposit_rounds_iff hd hL htoken hprec hfits hc hfollows .default hrec
    | withdraw m => exact withdraw_rounds_iff hd hL htoken hprec hc hfollows hrec
    | _ => cases hc

omit [Babyjubjub] [DecimalExt] [UserKey] in
theorem stores_iff (hd : Documented) (hto : Converts) {s : GlobalState lv}
    (htoken : getTokenIdByName asset = .ok tokenId) (hprec : precTokenId tokenId = .ok prec)
    (hfollows : c.Follows a asset prec d) : s.Stores c ↔ s.Rounds a tokenId prec c.balance := by
  obtain ⟨rfl, rfl, -, hnonneg, hfits⟩ := hfollows
  constructor
  · rintro ⟨tokenId', prec', x, htoken', hprec', hx, hs⟩
    obtain rfl := Except.ok.inj (htoken.symm.trans htoken')
    obtain rfl := Except.ok.inj (hprec.symm.trans hprec')
    exact ⟨x, hs, hd.toFr_eq _ _ _ hnonneg hx⟩
  · rintro ⟨y, hy, hval⟩
    obtain ⟨x, hx⟩ := hto c.balance prec hnonneg hfits
    have hxy : (y.val : ℤ) = x.val := hval.trans (hd.toFr_eq _ _ _ hnonneg hx).symm
    exact ⟨tokenId, prec, x, htoken, hprec, hx, ZMod.val_injective _ (Int.ofNat_inj.1 hxy) ▸ hy⟩

omit [Babyjubjub] [DecimalExt] [UserKey] in
/-- The balance before the change is the one that the change is of. -/
theorem expects_of_rounds (hd : Documented) {s : GlobalState lv}
    (htoken : getTokenIdByName asset = .ok tokenId) (hprec : precTokenId tokenId = .ok prec)
    (hnonneg : 0 ≤ value d) (hfollows : c.Follows a asset prec d)
    (hs : s.Rounds a tokenId prec d) : s.Expects c := by
  intro tokenId' prec' balanceBefore x y htoken' hprec' hsub hx hy
  obtain ⟨rfl, rfl, hbalance, -, -⟩ := hfollows
  obtain rfl := Except.ok.inj (htoken.symm.trans htoken')
  obtain rfl := Except.ok.inj (hprec.symm.trans hprec')
  have hbefore : value balanceBefore = value d := by
    rw [hd.value_sub _ _ _ hsub, hbalance, add_sub_cancel_right, hd.nearest_value]
  have hval := (rounds_iff hy).1 hs
  rw [← hbefore, ← hd.toFr_eq _ _ _ (hbefore ▸ hnonneg) hx, Int.ofNat_inj] at hval
  exact ZMod.val_injective _ hval

/-- The node is in step with the exchange along the messages: the assertion on the balance
    before a change is true, and the balance after it is stored. -/
def Node.InStep (n : Node lv) (rs : List Received) : Prop :=
  Exec.Along Node.processMsg (fun n r => ∀ c, r.balanceChange = some c →
    n.state.Expects c ∧ ∀ n', n.processMsg r = .ok n' → n'.state.Stores c) n rs

/-- The changes that are handled add up. -/
def Node.AddsUp (n : Node lv) (prec : ℕ) (rs : List Received) : Prop :=
  Exec.Along Node.processMsg (fun n r => ∀ c, r.balanceChange = some c →
    (∃ n', n.processMsg r = .ok n') → c.AddsUp prec) n rs

/-- As long as what is stored is the balance rounded down, what decides is the next change. -/
theorem inStep_iff_of_rounds (hd : Documented) (hto : Converts)
    (htoken : getTokenIdByName asset = .ok tokenId) (hprec : precTokenId tokenId = .ok prec)
    {rs : List Received} (h : ∃ L, Shows n.state L) (hnonneg : 0 ≤ value d)
    (hfits : ⌊value d * 10 ^ prec⌋ < 2 ^ 64) (hs : n.state.Rounds a tokenId prec d)
    (hrs : Consistent a asset prec d rs) : n.InStep rs ↔ n.AddsUp prec rs := by
  induction rs generalizing n d with
  | nil => exact Iff.rfl
  | cons r rs ih =>
    have hshows {n' : Node lv} (hr : n.processMsg r = .ok n') : ∃ L, Shows n'.state L := by
      obtain ⟨ops, -, hrun⟩ := Node.run_of_processMsg hr
      exact Node.exists_shows_run h hrun
    cases r with
    | timeout =>
      rw [Node.InStep, Node.AddsUp, Exec.Along, Exec.Along]
      refine and_congr (forall₂_congr fun c hc => by cases hc) (forall₂_congr fun n' hr => ?_)
      rw [← state_of_timeout hr] at hs
      exact ih (hshows hr) hnonneg hfits hs hrs
    | msg m schedule =>
      obtain ⟨c, hc, hfollows, hrs⟩ := hrs
      replace hc : (Received.msg m schedule).balanceChange = some c := hc
      -- what is stored after the change
      have hstored {n' : Node lv} (hr : n.processMsg (.msg m schedule) = .ok n') :
          n'.state.Rounds a tokenId prec c.balance ↔ c.AddsUp prec :=
        rounds_iff_of_processMsg hd h htoken hprec hfits hc hfollows hr
      have hrest {n' : Node lv} (hr : n.processMsg (.msg m schedule) = .ok n')
          (hadds : c.AddsUp prec) : n'.InStep rs ↔ n'.AddsUp prec rs :=
        ih (hshows hr) hfollows.nonneg hfollows.fits ((hstored hr).2 hadds) hrs
      constructor
      · rintro ⟨hfirst, hothers⟩
        have hadds {n' : Node lv} (hr : n.processMsg (.msg m schedule) = .ok n') : c.AddsUp prec :=
          (hstored hr).1 ((stores_iff hd hto htoken hprec hfollows).1 ((hfirst c hc).2 n' hr))
        refine ⟨fun c' hc' hn' => ?_, fun n' hr => (hrest hr (hadds hr)).1 (hothers n' hr)⟩
        obtain ⟨n', hr⟩ := hn'
        rw [← Option.some.inj (hc.symm.trans hc')]
        exact hadds hr
      · rintro ⟨hfirst, hothers⟩
        have hadds {n' : Node lv} (hr : n.processMsg (.msg m schedule) = .ok n') : c.AddsUp prec :=
          hfirst c hc ⟨n', hr⟩
        refine ⟨fun c' hc' => ?_, fun n' hr => (hrest hr (hadds hr)).2 (hothers n' hr)⟩
        rw [← Option.some.inj (hc.symm.trans hc')]
        exact ⟨expects_of_rounds hd htoken hprec hnonneg hfollows hs, fun n' hr =>
          (stores_iff hd hto htoken hprec hfollows).2 ((hstored hr).2 (hadds hr))⟩

/-- The changes of a new balance are in step with the exchange exactly if they add up. -/
theorem inStep_iff (hd : Documented) (hto : Converts) {nTx persistEveryNBlock : ℕ}
    {blockOffset : Option ℕ} {rs₀ rs : List Received}
    (hrun : Exec.run Node.processMsg (Node.new lv nTx blockOffset persistEveryNBlock) rs₀ = .ok n)
    (htoken : getTokenIdByName asset = .ok tokenId) (hprec : precTokenId tokenId = .ok prec)
    (hfresh : n.state.getTokenBalance a tokenId = .ok 0) (hzero : value d = 0)
    (hrs : Consistent a asset prec d rs) : n.InStep rs ↔ n.AddsUp prec rs := by
  obtain ⟨ops, -, hops⟩ := Node.run_of_run_processMsg hrun
  have hfloor : ⌊value d * 10 ^ prec⌋ = 0 := by rw [hzero, zero_mul, Int.floor_zero]
  exact inStep_iff_of_rounds hd hto htoken hprec
    (Node.exists_shows_run ⟨_, shows_new lv⟩ hops) hzero.ge (by rw [hfloor]; decide)
    ⟨0, hfresh, by rw [hfloor, ZMod.val_zero]; rfl⟩ hrs

end Rounding

section Example

open RustDecimal

attribute [local instance] FluidexCommon.sample RustDecimal.sample Babyjubjub.sample
  DecimalExt.sample UserKey.sample

/-- A deposit of `ETH` by the account `0`. -/
def depositEth (change balance : ℚ) (offset : ℤ) : Received :=
  .msg (.deposit ⟨{ userId := 0, asset := "ETH", change, balance }, some offset⟩) .id

/-- Five `ETH` are deposited, and three are withdrawn. -/
def fiveThenThree : List Received :=
  [depositEth 5 5 2, .timeout,
    .msg (.withdraw ⟨{
      userId := 0
      asset := "ETH"
      change := (-3 : ℚ)
      balance := (2 : ℚ)
      signature := Babyjubjub.sampleSign (WithdrawTx.new 0 0 30000 0).hash usersKey }, some 3⟩) .id]

/-- Two deposits of half a unit. -/
def halves : List Received := [depositEth (1 / 20000) (1 / 20000) 2, depositEth (1 / 20000) (1 / 10000) 3]

theorem RustDecimal.converts_sample : RustDecimal.Converts := by
  intro d prec hd hlt
  have hnonneg : 0 ≤ ⌊value d * 10 ^ prec⌋ := Int.floor_nonneg.2 (mul_nonneg hd (by positivity))
  have hunits : units (value d) prec = some ⌊value d * 10 ^ prec⌋.toNat :=
    if_pos ⟨hnonneg, hlt⟩
  refine ⟨(⌊value d * 10 ^ prec⌋.toNat : Fr), ?_⟩
  show (Nat.cast <$> unwrap (units (value d) prec) : Except Panic Fr) = _
  rw [hunits]
  rfl

theorem inStep_fiveThenThree : ∃ n,
    Exec.run Node.processMsg (Node.new Levels.small 2 none 1) [newUser 0 1] = .ok n ∧
    (n.InStep fiveThenThree ↔ n.AddsUp 4 fiveThenThree) := by
  obtain ⟨⟨n, y⟩, hn⟩ := Exec.exists_eq_ok (do
    let n ← Exec.run Node.processMsg (Node.new Levels.small 2 none 1) [newUser 0 1]
    let y ← n.state.getTokenBalance 0 0
    assert (y = 0) "fresh"
    pure (n, y)) (by decide +kernel)
  simp only [Exec.bind_eq_ok_iff, Exec.assert_eq_ok_iff, Exec.pure_eq_ok_iff, Prod.mk.injEq] at hn
  obtain ⟨n, hn, _, hy, _, rfl, rfl, rfl⟩ := hn
  have hconsistent : Consistent 0 "ETH" 4 (0 : ℚ) fiveThenThree := by
    refine ⟨_, rfl, ⟨rfl, rfl, ?_, ?_, ?_⟩, _, rfl, ⟨rfl, rfl, ?_, ?_, ?_⟩, trivial⟩ <;>
      decide +kernel
  exact ⟨n, hn, inStep_iff RustDecimal.documented_sample RustDecimal.converts_sample hn rfl rfl hy
    rfl hconsistent⟩

/-- The two deposits store nothing, and the next one is a panic. -/
theorem not_inStep_halves : ∃ n n',
    Exec.run Node.processMsg (Node.new Levels.small 2 none 1) [newUser 0 1] = .ok n ∧
    n.state.hasAccount 0 ∧ n.state.getTokenBalance 0 0 = .ok 0 ∧
    Consistent 0 "ETH" 4 (0 : ℚ) (halves ++ [depositEth 1 (10001 / 10000) 4]) ∧
    Exec.run Node.processMsg n halves = .ok n' ∧
    n'.processMsg (depositEth 1 (10001 / 10000) 4) =
      .error (.assertion "expected_balance_before") ∧
    ¬n.InStep halves := by
  obtain ⟨⟨n, n₁, n', y, y'⟩, hn⟩ := Exec.exists_eq_ok (do
    let n ← Exec.run Node.processMsg (Node.new Levels.small 2 none 1) [newUser 0 1]
    let n₁ ← n.processMsg (depositEth (1 / 20000) (1 / 20000) 2)
    let n' ← n₁.processMsg (depositEth (1 / 20000) (1 / 10000) 3)
    let y ← n.state.getTokenBalance 0 0
    let y' ← n'.state.getTokenBalance 0 0
    assert (n.state.hasAccount 0 ∧ y = 0 ∧ y' = 0) "balances"
    assert ((n'.processMsg (depositEth 1 (10001 / 10000) 4)).map (fun _ => ()) =
      .error (.assertion "expected_balance_before")) "a panic"
    pure (n, n₁, n', y, y')) (by decide +kernel)
  simp only [Exec.bind_eq_ok_iff, Exec.assert_eq_ok_iff, Exec.pure_eq_ok_iff, Prod.mk.injEq] at hn
  obtain ⟨n, hn, n₁, hn₁, n', hn', y, hy, y', hy', _, ⟨hacc, rfl, rfl⟩, _, hpanic,
    rfl, rfl, rfl, rfl, rfl⟩ := hn
  have hconsistent : Consistent 0 "ETH" 4 (0 : ℚ) (halves ++ [depositEth 1 (10001 / 10000) 4]) := by
    refine ⟨_, rfl, ⟨rfl, rfl, ?_, ?_, ?_⟩, _, rfl, ⟨rfl, rfl, ?_, ?_, ?_⟩, _, rfl,
      ⟨rfl, rfl, ?_, ?_, ?_⟩, trivial⟩ <;> decide +kernel
  refine ⟨n, n', hn, hacc, hy, hconsistent,
    Exec.run_cons.2 ⟨n₁, hn₁, Exec.run_cons.2 ⟨n', hn', rfl⟩⟩, ?_, fun hin => ?_⟩
  · exact Exec.map_eq_error_iff.1 hpanic
  · -- the second deposit makes a unit of the balance
    obtain ⟨-, hrest⟩ := hin
    obtain ⟨hsecond, -⟩ := hrest n₁ hn₁
    obtain ⟨tokenId, prec, x, htoken, hprec, hx, hstored⟩ := (hsecond _ rfl).2 n' hn'
    obtain rfl : 0 = tokenId := Except.ok.inj htoken
    obtain rfl : 4 = prec := Except.ok.inj hprec
    obtain rfl : 0 = x := Except.ok.inj (hy'.symm.trans hstored)
    have hunit : (toFr (1 / 10000 : ℚ) 4 : Except Panic Fr) ≠ .ok 0 := by decide +kernel
    exact hunit hx

end Example

end Rollup
