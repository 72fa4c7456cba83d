import Rollup.Balances
import Rollup.Msg

/-!
# Withdrawals

The manager takes the amount of a withdrawal from the balance of the account
without comparing them, and a `Processor` only checks that the balance the
message starts from is the stored one. The balance covers the amount if the
balance that the message leaves is not negative, which no one checks: it is so
exactly when this balance is not negative up to rounding (`withdraws_iff`).
-/

namespace Rollup

section Withdrawals

variable [FluidexCommon] {lv : Levels} {s s' : GlobalState lv} {L : Ledger lv} {offset : Option ℤ}

/-! ## Withdrawals of the manager -/

/-- The balance covers the amount, and loses it, as integers. -/
def GlobalState.Withdraws (s : GlobalState lv) (tx : WithdrawTx) (s' : GlobalState lv) : Prop :=
  ∃ before after : Fr, s.getTokenBalance tx.accountId tx.tokenId = .ok before ∧
    s'.getTokenBalance tx.accountId tx.tokenId = .ok after ∧
    tx.amount.toNat ≤ before.val ∧ (after.val : ℤ) = before.val - tx.amount.toNat

/-- A balance that is set in an account with a key is read. -/
theorem Shows.getTokenBalance_set {a tokenId : ℕ} {e : Entry lv} {t : Tree lv.balanceLevels} {v : Fr}
    (h : Shows s' (L.set a e)) (hay : e.state.ay ≠ 0) (ht : t.setValue tokenId v = .ok e.balanceTree) :
    s'.getTokenBalance a tokenId = .ok v := by
  rw [h.getTokenBalance_eq, Ledger.entry_of_some (L.set_self a e), Entry.balance_of_keyed hay,
    Tree.getLeaf_setValue_self ht]

/-- A withdrawal of an account with a key subtracts the amount, in the field. -/
theorem withdraw_balance (h : Shows s L) {tx : WithdrawTx} {rawTx : RawTx}
    (hkey : s.hasAccount tx.accountId) (hr : s.withdraw tx offset = .ok (rawTx, s')) :
    s'.getTokenBalance tx.accountId tx.tokenId =
      .ok ((L.entry tx.accountId).balance tx.tokenId - tx.amount.toFr) := by
  obtain ⟨t, ht, h', -⟩ := withdraw_spec h hr
  exact h'.getTokenBalance_set ((h.hasAccount_iff _).1 hkey) ht

/-- The subtraction is exact if, and only if, the balance covers the amount. -/
theorem withdraws_iff_le (h : Shows s L) {tx : WithdrawTx} {rawTx : RawTx}
    (hkey : s.hasAccount tx.accountId) (hr : s.withdraw tx offset = .ok (rawTx, s')) :
    s.Withdraws tx s' ↔
      tx.amount.toNat ≤ ((L.entry tx.accountId).balance tx.tokenId).val := by
  have hbefore := h.getTokenBalance_eq tx.accountId tx.tokenId
  have hafter := withdraw_balance h hkey hr
  constructor
  · rintro ⟨before, after, hb, -, hle, -⟩
    rw [hbefore, Except.ok.injEq] at hb
    rwa [hb]
  · intro hle
    refine ⟨_, _, hbefore, hafter, hle, ?_⟩
    rw [ZMod.val_sub (by rwa [U128.toFr_val]), U128.toFr_val]
    exact Int.ofNat_sub hle

/-! ## Messages -/

open RustDecimal

variable [RustDecimal] [Babyjubjub]

namespace WithdrawMessage

omit [FluidexCommon] [Babyjubjub]

/-- The balance that the message leaves is not negative, in units, up to the fraction
    of a unit that the amount is rounded down by, and to the error on the difference
    of the balance and the change. -/
def Covered (w : WithdrawMessage) (prec : ℕ) : Prop :=
  0 ≤ value w.balance * 10 ^ prec + Int.fract (-value w.change * 10 ^ prec) +
    (nearest (value w.balance - value w.change) - (value w.balance - value w.change)) * 10 ^ prec

/-- The transaction is about the account, the token and the amount of the message. -/
structure Issues (w : WithdrawMessage) (tx : WithdrawTx) (prec : ℕ) : Prop where
  accountId : tx.accountId = w.userId
  tokenId : getTokenIdByName w.asset = .ok tx.tokenId
  precision : precTokenId tx.tokenId = .ok prec
  amount : (tx.amount.toNat : ℤ) = ⌊-value w.change * 10 ^ prec⌋

/-- Leaving a balance that is not negative is enough. -/
theorem covered_of_nonneg (hd : Documented) {w : WithdrawMessage} (hw : 0 ≤ value w.balance)
    (prec : ℕ) : w.Covered prec := by
  have hround : -value w.change ≤ nearest (value w.balance - value w.change) := by
    have hmono := hd.nearest_mono (show -value w.change ≤ value w.balance - value w.change by linarith)
    rwa [← hd.value_neg, hd.nearest_value, hd.value_neg] at hmono
  have hfract := Int.fract_nonneg (-value w.change * 10 ^ prec)
  have hpow : (0 : ℚ) ≤ 10 ^ prec := by positivity
  have hmul := mul_le_mul_of_nonneg_right hround hpow
  rw [Covered]
  linarith

/-- The amount is at most the balance before the withdrawal when the message is covered. -/
theorem covered_iff (w : WithdrawMessage) (prec : ℕ) : w.Covered prec ↔
    ⌊-value w.change * 10 ^ prec⌋ ≤
      ⌊nearest (value w.balance - value w.change) * 10 ^ prec⌋ := by
  have hfloor := Int.floor_add_fract (-value w.change * 10 ^ prec)
  rw [Int.le_floor, Covered]
  constructor <;> intro h <;> linarith

end WithdrawMessage

variable {n n' : Node lv} {message : Message WithdrawMessage}

/-- What is computed and checked of a message, up to the transaction `tx`, not yet signed. -/
structure WithdrawMessage.Checked (w : WithdrawMessage) (s : GlobalState lv) (tx : WithdrawTx)
    (prec : ℕ) (sig : SignatureBJJ) : Prop where
  tokenId : getTokenIdByName w.asset = .ok tx.tokenId
  precision : precTokenId tx.tokenId = .ok prec
  balance : ∃ before old, sub w.balance w.change = .ok before ∧ isSignNegative before = false ∧
    toFr before prec = .ok old ∧ s.getTokenBalance w.userId tx.tokenId = .ok old
  amount : ∃ amount, toU64 (neg w.change) prec = .ok amount ∧
    tx = WithdrawTx.new w.userId tx.tokenId (.ofNat 128 amount.toNat) 0
  signature : bytesToSig w.signature = .ok sig
  checked : s.checkSig tx.accountId tx.hash sig = .ok ()

/-- A message that is handled is checked, and the transaction is made with its signature. -/
theorem exists_checked (hr : Processor.handleWithdrawMsg ⟨true⟩ n message = .ok n') :
    ∃ tx prec sig, message.message.Checked n.state tx prec sig ∧
      n.step (.withdraw { tx with sig := Babyjubjub.fromRaw tx.hash sig } message.offset) =
        .ok n' := by
  obtain ⟨-, hr⟩ := Exec.assert_bind_eq_ok_iff.1 hr
  obtain ⟨tokenId, htoken, hr⟩ := Exec.bind_eq_ok_iff.1 hr
  obtain ⟨balanceBefore, hsub, hr⟩ := Exec.bind_eq_ok_iff.1 hr
  obtain ⟨hsign, hr⟩ := Exec.assert_bind_eq_ok_iff.1 hr
  obtain ⟨expected, hstored, hr⟩ := Exec.bind_eq_ok_iff.1 hr
  obtain ⟨prec, hprec, hr⟩ := Exec.bind_eq_ok_iff.1 hr
  obtain ⟨oldBalance, hold, hr⟩ := Exec.bind_eq_ok_iff.1 hr
  obtain ⟨rfl, hr⟩ := Exec.assert_bind_eq_ok_iff.1 hr
  obtain ⟨amount, hamount, hr⟩ := Exec.bind_eq_ok_iff.1 hr
  obtain ⟨rawSig, hrawSig, hr⟩ := Exec.bind_eq_ok_iff.1 hr
  obtain ⟨_, hsig, hr⟩ := Exec.bind_eq_ok_iff.1 hr
  rw [checkWithdrawSig, Exec.unwrap_eq_ok_iff, Exec.toOption_eq_some_iff] at hsig
  -- the transaction that is signed does not have the old balance
  exact ⟨WithdrawTx.new message.message.userId tokenId (.ofNat 128 amount.toNat) expected, prec,
    rawSig, ⟨htoken, hprec, ⟨_, _, hsub, hsign, hold, hstored⟩, ⟨amount, hamount, rfl⟩, hrawSig, hsig⟩,
    hr⟩

/-- What a message that is handled has been checked for. -/
theorem handleWithdrawMsg_spec (hd : Documented) (h : Shows n.state L)
    (hr : Processor.handleWithdrawMsg ⟨true⟩ n message = .ok n') :
    ∃ tx prec, message.message.Issues tx prec ∧ n.state.hasAccount tx.accountId ∧
      n.step (.withdraw tx message.offset) = .ok n' ∧
      (((L.entry tx.accountId).balance tx.tokenId).val : ℤ) =
        ⌊nearest (value message.message.balance - value message.message.change) * 10 ^ prec⌋ := by
  obtain ⟨tx, prec, sig, hc, hst⟩ := exists_checked hr
  obtain ⟨amount, hamount, htx⟩ := hc.amount
  have haccount : tx.accountId = message.message.userId := by rw [htx]; rfl
  refine ⟨{ tx with sig := Babyjubjub.fromRaw tx.hash sig }, prec,
    ⟨haccount, hc.tokenId, hc.precision, ?_⟩, ?_, hst, ?_⟩
  · have hlt : amount.toNat < 2 ^ 128 := amount.toNat_lt.trans (by norm_num)
    rw [← hd.value_neg, ← hd.toU64_eq _ _ _ hamount, htx]
    exact congrArg Nat.cast ((BitVec.toNat_ofNat _ _).trans (Nat.mod_eq_of_lt hlt))
  · -- The signature is checked against the key of the account.
    have hsig := hc.checked
    rw [GlobalState.checkSig] at hsig
    split at hsig
    · cases hsig
    · next hkey => exact not_not.1 hkey
  · obtain ⟨before, old, hsub, hsign, hold, hstored⟩ := hc.balance
    rw [h.getTokenBalance_eq, Except.ok.injEq, ← haccount] at hstored
    rw [← hd.value_sub _ _ _ hsub, ← hd.toFr_eq _ _ _ (hd.nonneg _ hsign) hold, ← hstored]

/-- In every reachable state, an accepted withdrawal is covered by the balance exactly
    when its message is. -/
theorem withdraws_iff (hd : Documented) {nTx persistEveryNBlock : ℕ} {blockOffset : Option ℕ}
    (hn : Exec.Reachable Node.step (fun _ _ => True)
      (Node.new lv nTx blockOffset persistEveryNBlock) n)
    (hr : Processor.handleWithdrawMsg ⟨true⟩ n message = .ok n') :
    ∃ tx prec, message.message.Issues tx prec ∧ n.step (.withdraw tx message.offset) = .ok n' ∧
      (n.state.Withdraws tx n'.state ↔ message.message.Covered prec) ∧
      (0 ≤ value message.message.balance → n.state.Withdraws tx n'.state) := by
  obtain ⟨L, h, -⟩ := exists_committed hn
  obtain ⟨tx, prec, hissues, hkey, hst, hbefore⟩ := handleWithdrawMsg_spec hd h hr
  obtain ⟨raw, happly⟩ := Node.step_state hst
  have hiff : n.state.Withdraws tx n'.state ↔ message.message.Covered prec := by
    cases GlobalState.applied happly with
    | withdraw hr =>
      rw [withdraws_iff_le h hkey hr, WithdrawMessage.covered_iff, ← hbefore, ← hissues.amount,
        Int.ofNat_le]
  exact ⟨tx, prec, hissues, hst, hiff, fun hb => hiff.2 (WithdrawMessage.covered_of_nonneg hd hb prec)⟩

end Withdrawals

/-- The account `0` with a key, and five `ETH`. -/
def fiveEth : List Op := [.keyUpdate ⟨0, ⟨1, 1, 5⟩⟩ none, .deposit ⟨0, 0, 50000, none⟩ none]

attribute [local instance] FluidexCommon.sample RustDecimal.sample Babyjubjub.sample

/-- A withdrawal of `ETH` by the account `0`, signed with its key. -/
def withdrawEth (change balance : ℚ) (amount : U128) : WithdrawMessage where
  userId := 0
  asset := "ETH"
  change := change
  balance := balance
  signature := Babyjubjub.sampleSign (WithdrawTx.new 0 0 amount 0).hash 5

theorem withdraws_iff_three :
    ∃ n n' tx prec, Exec.run Node.step (Node.new Levels.small 2 none 9) fiveEth = .ok n ∧
      Processor.handleWithdrawMsg ⟨true⟩ n ⟨withdrawEth (-3) 2 30000, none⟩ = .ok n' ∧
      n.step (.withdraw tx none) = .ok n' ∧
      (n.state.Withdraws tx n'.state ↔ (withdrawEth (-3) 2 30000).Covered prec) := by
  obtain ⟨⟨n, n'⟩, hn⟩ := Exec.exists_eq_ok (do
    let n ← Exec.run Node.step (Node.new Levels.small 2 none 9) fiveEth
    let n' ← Processor.handleWithdrawMsg ⟨true⟩ n ⟨withdrawEth (-3) 2 30000, none⟩
    pure (n, n')) (by decide +kernel)
  simp only [Exec.bind_eq_ok_iff, Exec.pure_eq_ok_iff, Prod.mk.injEq] at hn
  obtain ⟨n, hn, n', hr, rfl, rfl⟩ := hn
  obtain ⟨tx, prec, -, hst, hiff, -⟩ := withdraws_iff RustDecimal.documented_sample
    (Exec.Reachable.init.run (fun _ _ _ => trivial) hn) hr
  exact ⟨n, n', tx, prec, hn, hr, hst, hiff⟩

/-- Ten `ETH` are withdrawn from five: the message says that minus five are left. -/
theorem not_withdraws_ten :
    ∃ n n' tx after, Exec.run Node.step (Node.new Levels.small 2 none 9) fiveEth = .ok n ∧
      Processor.handleWithdrawMsg ⟨true⟩ n ⟨withdrawEth (-10) (-5) 100000, none⟩ = .ok n' ∧
      n.step (.withdraw tx none) = .ok n' ∧ tx.amount.toNat = 100000 ∧
      n.state.getTokenBalance tx.accountId tx.tokenId = .ok 50000 ∧
      n'.state.getTokenBalance tx.accountId tx.tokenId = .ok after ∧
      after.val = Fr.modulus - 50000 ∧ ¬n.state.Withdraws tx n'.state := by
  obtain ⟨⟨n, n', before, after⟩, hn⟩ := Exec.exists_eq_ok (do
    let n ← Exec.run Node.step (Node.new Levels.small 2 none 9) fiveEth
    let n' ← Processor.handleWithdrawMsg ⟨true⟩ n ⟨withdrawEth (-10) (-5) 100000, none⟩
    let before ← n.state.getTokenBalance 0 0
    let after ← n'.state.getTokenBalance 0 0
    assert (before = 50000 ∧ after.val = Fr.modulus - 50000) "balances"
    pure (n, n', before, after)) (by decide +kernel)
  simp only [Exec.bind_eq_ok_iff, Exec.assert_eq_ok_iff, Exec.pure_eq_ok_iff, Prod.mk.injEq] at hn
  obtain ⟨n, hn, n', hr, _, hbefore, _, hafter, _, ⟨rfl, hval⟩, rfl, rfl, rfl, rfl⟩ := hn
  have hreach : Exec.Reachable Node.step (fun _ _ => True) (Node.new Levels.small 2 none 9) n :=
    Exec.Reachable.init.run (fun _ _ _ => trivial) hn
  obtain ⟨L, h, -⟩ := exists_committed hreach
  obtain ⟨tx, prec, hissues, -, hst, -⟩ :=
    handleWithdrawMsg_spec RustDecimal.documented_sample h hr
  -- The transaction is about ten units of the token `0`, with four decimals.
  have haccount : tx.accountId = 0 := hissues.accountId
  have htoken : 0 = tx.tokenId := Except.ok.inj hissues.tokenId
  have hprec : precTokenId 0 = .ok prec := by rw [htoken, hissues.precision]
  have hprec : 4 = prec := Except.ok.inj hprec
  have hamount : (tx.amount.toNat : ℤ) = ⌊-(-10 : ℚ) * 10 ^ 4⌋ := by
    rw [hissues.amount, ← hprec]
    rfl
  have hamount : tx.amount.toNat = 100000 := by
    norm_num at hamount
    omega
  have htx : tx.accountId = 0 ∧ tx.tokenId = 0 := ⟨haccount, htoken.symm⟩
  refine ⟨n, n', tx, _, hn, hr, hst, hamount, by rwa [htx.1, htx.2], by rwa [htx.1, htx.2], hval, ?_⟩
  rintro ⟨before, _, hb, -, hle, -⟩
  rw [htx.1, htx.2] at hb
  obtain rfl := Except.ok.inj (hbefore.symm.trans hb)
  rw [hamount] at hle
  exact absurd hle (by decide)

end Rollup
