import Rollup.Exchange
import Rollup.Serving

/-!
# What the users are told

`Controller::token_balance_query`: the balance of a token, given by its id or its name, as a
number of units and as a decimal of the precision of the token.

The users know the books of the exchange. After any messages that have been handled, each answer
about a token with a leaf is what these books say, and a reader of the number of units gets back
the balance in the books (`tokenBalanceQuery_of_processMsg`).
-/

namespace Rollup

/-! ## Queries -/

/-- A token is asked for by its id, its address or its name. -/
structure TokenBalanceQueryRequest where
  accountId : ℕ
  tokenId : Option ℕ := none
  tokenAddress : Option String := none
  tokenName : Option String := none

/-- The balance as a decimal, and as it is in the tree. -/
structure TokenBalanceQueryResponse where
  balance : String
  balanceRaw : String
  precision : ℕ

namespace TokenBalanceQueryRequest

/-- The token of a request: an address is not implemented. -/
def token (request : TokenBalanceQueryRequest) : Except Panic (Except Status ℕ) :=
  match request.tokenId, request.tokenAddress, request.tokenName with
  | some tokenId, _, _ => pure (.ok tokenId)
  | none, some _, _ => .error (.explicit "not implemented")
  | none, none, some tokenName => .ok <$> getTokenIdByName tokenName
  | none, none, none => pure (.error
      ⟨.invalidArgument, "Must specify one of token_id, token_address or token_name"⟩)

variable [RustDecimal] [DecimalExt] [Formats] [Texts]

/-- The answer to a request about a token, of which the balance is read. -/
def answer (tokenId : ℕ) (balance : Fr) :
    Except Panic (Except Status TokenBalanceQueryResponse) := do
  let precision ← precTokenId tokenId
  let text ← decimalText balance precision
  pure (.ok { balance := text, balanceRaw := Texts.toDecimalString balance, precision })

end TokenBalanceQueryRequest

section Enquiries

variable [FluidexCommon] [RustDecimal] [DecimalExt] [Formats] [Texts] {lv : Levels}

/-- `Controller::token_balance_query` -/
def tokenBalanceQuery (s : GlobalState lv) (request : TokenBalanceQueryRequest) :
    Except Panic (Except Status TokenBalanceQueryResponse) := do
  match ← request.token with
  | .error e => pure (.error e)
  | .ok tokenId => do
    let balance ← s.getTokenBalance request.accountId tokenId
    TokenBalanceQueryRequest.answer tokenId balance

/-! ## Answers -/

variable {s : GlobalState lv} {L : Ledger lv} {B : Books} {n : Node lv}

omit [RustDecimal] [DecimalExt] [Formats] [Texts] in
/-- What is read of an account is what the books say. -/
theorem GlobalState.Keeps.getTokenBalance_eq (hB : s.Keeps B) (h : Shows s L)
    (hread : ∀ a, (L.entry a).Readable) (accountId : ℕ) {tokenId : ℕ}
    (htoken : tokenId < 2 ^ lv.balanceLevels) :
    ∃ balance : Fr, s.getTokenBalance accountId tokenId = .ok balance ∧
      balance.val = B.balances accountId tokenId := by
  refine ⟨s.balanceOf accountId tokenId, ?_, ?_⟩
  · rw [h.getTokenBalance_eq, h.balance_of_readable (hread accountId) htoken]
  · rw [hB.balances]
    rfl

variable [Babyjubjub] [UserKey] [Texts.Documented]

/-- **The users are told what the books of the exchange say.** -/
theorem tokenBalanceQuery_of_processMsg {nTx persistEveryNBlock : ℕ} {blockOffset : Option ℕ}
    {received : List Received} (hlen : received.length < 2 ^ 125)
    (hrun : Exec.run Node.processMsg (Node.new lv nTx blockOffset persistEveryNBlock) received =
      .ok n) :
    ∃ ks, bookingsOf received = .ok ks ∧ ∀ B, (∀ k ∈ ks, k.Proper lv) →
      Books.empty.bookAll ks = some B → ∀ (request : TokenBalanceQueryRequest) (tokenId : ℕ),
        request.token = .ok (.ok tokenId) → tokenId < 2 ^ lv.balanceLevels →
          tokenBalanceQuery n.state request = TokenBalanceQueryRequest.answer tokenId
            (B.balances request.accountId tokenId : Fr) ∧
          ∀ response, tokenBalanceQuery n.state request = .ok (.ok response) →
            Texts.bigIntFromStr response.balanceRaw =
              some (B.balances request.accountId tokenId : ℤ) := by
  obtain ⟨ks, hks, hle⟩ := Node.run_bookings hrun
  refine ⟨ks, hks, fun B hproper hbook request tokenId htoken hlt => ?_⟩
  obtain ⟨hB, L, h, hread⟩ := Node.keeps_of_new_processMsg hlen hrun hks hle hproper hbook
  obtain ⟨balance, hbalance, hval⟩ := hB.getTokenBalance_eq h hread request.accountId hlt
  have hquery : tokenBalanceQuery n.state request =
      TokenBalanceQueryRequest.answer tokenId balance := by
    rw [tokenBalanceQuery, htoken]
    dsimp only [Exec.ok_bind]
    rw [hbalance, Exec.ok_bind]
  -- The balance is a number of the field, and the books count the same number.
  have hcast : (B.balances request.accountId tokenId : Fr) = balance := by
    rw [← hval, ZMod.natCast_zmod_val]
  refine ⟨by rw [hquery, hcast], fun response hresponse => ?_⟩
  rw [hquery] at hresponse
  simp only [TokenBalanceQueryRequest.answer, Exec.bind_eq_ok_iff, Exec.pure_eq_ok_iff] at hresponse
  obtain ⟨precision, -, text, -, hresponse⟩ := hresponse
  obtain rfl := Except.ok.inj hresponse
  rw [Texts.Documented.bigIntFromStr_eq, hval]

end Enquiries

section Example

attribute [local instance] FluidexCommon.sample RustDecimal.sample Babyjubjub.sample
  DecimalExt.sample UserKey.sample Formats.sample Texts.sample

/-- What has been paid to the second user. -/
theorem tokenBalanceQuery_of_processMsg_spentFive : ∃ n response,
    Exec.run Node.processMsg (Node.new Levels.small 2 none 9) spentFive = .ok n ∧
      tokenBalanceQuery n.state { accountId := 1, tokenName := some "ETH" } = .ok (.ok response) ∧
      response.precision = 4 ∧ Texts.bigIntFromStr response.balanceRaw = some 20000 := by
  let request : TokenBalanceQueryRequest := { accountId := 1, tokenName := some "ETH" }
  have := Texts.documented_sample
  obtain ⟨n, hn⟩ := Exec.exists_eq_ok (Exec.run Node.processMsg (Node.new Levels.small 2 none 9)
    spentFive) (by decide +kernel)
  obtain ⟨ks, hks, hanswers⟩ := tokenBalanceQuery_of_processMsg (by decide) hn
  have hbookings : bookingsOf spentFive = .ok [.register 0 (0, (usersKey : Fr)),
      .register 1 (0, (usersKey : Fr)), .deposit 0 0 50000, .transfer 0 1 0 20000,
      .withdraw 0 0 30000] := by decide +kernel
  obtain rfl := Except.ok.inj (hks.symm.trans hbookings)
  obtain ⟨B, hB⟩ := Exec.exists_eq_ok (do
    let B ← unwrap (Books.empty.bookAll [.register 0 (0, (usersKey : Fr)),
      .register 1 (0, (usersKey : Fr)), .deposit 0 0 50000, .transfer 0 1 0 20000,
      .withdraw 0 0 30000])
    assert (B.balances 1 0 = 20000) "balance"
    pure B) (by decide +kernel)
  simp only [Exec.bind_eq_ok_iff, Exec.unwrap_eq_ok_iff, Exec.assert_eq_ok_iff,
    Exec.pure_eq_ok_iff] at hB
  obtain ⟨B, hB, _, hbalance, rfl⟩ := hB
  obtain ⟨hanswer, hraw⟩ := hanswers B (by decide +kernel) hB request 0 rfl (by decide)
  have hquery : tokenBalanceQuery n.state request = .ok (.ok _) := hanswer
  refine ⟨n, _, hn, hquery, rfl, ?_⟩
  rw [hraw _ hquery]
  exact congrArg (fun k : ℕ => some (k : ℤ)) hbalance

end Example

end Rollup
