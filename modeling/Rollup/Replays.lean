import Rollup.Encode.Floats
import Rollup.Operations
import Rollup.Resuming
import Rollup.Withdrawals

/-!
# Signatures that are used again

A transfer and a withdrawal are signed, but what is signed has the nonce `0`, whatever that of
the account, and the amount divided by a million (`TransferTx.hash`, `WithdrawTx.hash`). So a
signature is accepted again for the same token, the same receiver and any amount of the same
millions (`not_signedOnce_payTwice`).

It is accepted for nothing else: an account keeps its key, so that the messages of two accepted
signatures that are the same have been signed as one (`Verified.hash_eq`). The signatures of an
account are all different if, and only if, they are for the messages on a same movement
(`signedOnce_iff`).
-/

namespace Rollup

section Replays

open RustDecimal

/-! ## What is signed -/

/-- The token and the receiver of a movement of funds, and its amount in millions of units. -/
structure Movement where
  tokenId : ℕ
  receiver : ℕ
  millions : ℕ
  deriving DecidableEq

/-- The transaction of a message, not yet signed. -/
def TransferMessage.tx [RustDecimal] (m : TransferMessage) : Except Panic TransferTx := do
  let tokenId ← getTokenIdByName m.asset
  let precision ← precTokenId tokenId
  let amount ← toU64 m.amount precision
  pure (TransferTx.new m.userFrom m.userTo tokenId (.ofNat 128 amount.toNat))

/-- The transaction that the handler makes of the message, before it is filled in. -/
def WithdrawMessage.tx [RustDecimal] (m : WithdrawMessage) : Except Panic WithdrawTx := do
  let tokenId ← getTokenIdByName m.asset
  let precision ← precTokenId tokenId
  let amount ← toU64 (neg m.change) precision
  pure (WithdrawTx.new m.userId tokenId (.ofNat 128 amount.toNat) 0)

/-- What the hash of a transaction is that of. -/
def TransferTx.signed (tx : TransferTx) : List Fr :=
  [TxType.transfer.toFr, tx.tokenId, (tx.amount / 1000000).toFr, tx.fromId, tx.fromNonce, tx.toId]

/-- The field elements that are hashed to be signed. -/
def WithdrawTx.signed (tx : WithdrawTx) : List Fr :=
  [TxType.withdraw.toFr, tx.accountId, tx.tokenId, (tx.amount / 1000000).toFr, tx.nonce,
    tx.oldBalance]

/-- What the signature of a transfer says of the money. -/
def TransferTx.movement (tx : TransferTx) : Movement :=
  ⟨tx.tokenId, tx.toId, (tx.amount / 1000000).toNat⟩

/-- What the signature of a withdrawal says of the money. -/
def WithdrawTx.movement (tx : WithdrawTx) : Movement :=
  ⟨tx.tokenId, tx.accountId, (tx.amount / 1000000).toNat⟩

namespace WrappedMessage

variable [RustDecimal]

/-- The kind of movement, and the account that signs it. -/
def signer : WrappedMessage → Option (TxType × ℕ)
  | .transfer m => some (.transfer, m.message.userFrom)
  | .withdraw m => some (.withdraw, m.message.userId)
  | _ => none

/-- The signature of a message that has to be signed. -/
def signature : WrappedMessage → Option (Vector UInt8 64)
  | .transfer m => some m.message.signature
  | .withdraw m => some m.message.signature
  | _ => none

/-- What is signed with a message. -/
def signed : WrappedMessage → Except Panic (List Fr)
  | .transfer m => TransferTx.signed <$> m.message.tx
  | .withdraw m => WithdrawTx.signed <$> m.message.tx
  | _ => .error .unreachable

/-- The money that moves with a message that has to be signed. -/
def movement : WrappedMessage → Except Panic Movement
  | .transfer m => TransferTx.movement <$> m.message.tx
  | .withdraw m => WithdrawTx.movement <$> m.message.tx
  | _ => .error .unreachable

/-- Two messages of the same kind that the same account signs have different signatures. -/
def SignedApart (m m' : WrappedMessage) : Prop :=
  m.signer.isSome → m.signer = m'.signer → m.signature ≠ m'.signature

instance (m m' : WrappedMessage) : Decidable (m.SignedApart m') :=
  inferInstanceAs (Decidable (_ → _ → _))

end WrappedMessage

/-- The messages that are received. -/
def wrapped [RustDecimal] (rs : List Received) : List WrappedMessage :=
  rs.filterMap fun
    | .msg message _ => some message
    | .timeout => none

/-- A signature verifies for only one message under the key of an account. -/
def Babyjubjub.SignsOne [Babyjubjub] : Prop :=
  ∀ (ay : Fr) (sign : Bool) (pk : Babyjubjub.Point), ay ≠ 0 →
    Babyjubjub.recoverPoint ay.toBigint sign = .ok pk → ∀ sig msg msg',
      Babyjubjub.verifyRawUsingPubkey msg sig pk = true →
      Babyjubjub.verifyRawUsingPubkey msg' sig pk = true → msg = msg'

variable [FluidexCommon] [RustDecimal] {lv : Levels}

/-- The hash has no collision among what the messages sign. -/
def CollisionFree (ms : List WrappedMessage) : Prop :=
  ∀ m ∈ ms, ∀ m' ∈ ms, ∀ l, m.signed = .ok l → ∀ l', m'.signed = .ok l' →
    Fr.hash l = Fr.hash l' → l = l'

instance (ms : List WrappedMessage) : Decidable (CollisionFree ms) :=
  inferInstanceAs (Decidable (∀ m ∈ ms, ∀ m' ∈ ms, ∀ _, _ = _ → ∀ _, _ = _ → _ → _ = _))

/-! ## What is signed decides the movement -/

omit [FluidexCommon] [RustDecimal] in
theorem getTokenIdByName_lt {name : String} {tokenId : ℕ} (h : getTokenIdByName name = .ok tokenId) :
    tokenId < 2 ^ 32 := by
  unfold getTokenIdByName at h
  split at h
  all_goals first
    | (obtain rfl := Except.ok.inj h; decide)
    | cases h

omit [FluidexCommon] [RustDecimal] in
theorem natCast_inj_of_lt {a b k : ℕ} (ha : a < 2 ^ k) (hb : b < 2 ^ k) (hk : k < 254)
    (h : (a : Fr) = (b : Fr)) : a = b := by
  rw [← Fr.val_natCast ha hk, h, Fr.val_natCast hb hk]

omit [FluidexCommon] [RustDecimal] in
theorem TransferTx.movement_eq {tx tx' : TransferTx} (htoken : tx.tokenId < 2 ^ 32)
    (htoken' : tx'.tokenId < 2 ^ 32) (hto : tx.toId < 2 ^ 32) (hto' : tx'.toId < 2 ^ 32)
    (h : tx.signed = tx'.signed) : tx.movement = tx'.movement := by
  simp only [signed, List.cons.injEq, true_and, and_true] at h
  obtain ⟨htokens, hamounts, -, -, htos⟩ := h
  rw [movement, movement, natCast_inj_of_lt htoken htoken' (by decide) htokens,
    natCast_inj_of_lt hto hto' (by decide) htos,
    natCast_inj_of_lt (BitVec.isLt _) (BitVec.isLt _) (by decide) hamounts]

omit [FluidexCommon] [RustDecimal] in
theorem WithdrawTx.movement_eq {tx tx' : WithdrawTx} (htoken : tx.tokenId < 2 ^ 32)
    (htoken' : tx'.tokenId < 2 ^ 32) (haccount : tx.accountId = tx'.accountId)
    (h : tx.signed = tx'.signed) : tx.movement = tx'.movement := by
  simp only [signed, List.cons.injEq, true_and, and_true] at h
  obtain ⟨-, htokens, hamounts, -, -⟩ := h
  rw [movement, movement, natCast_inj_of_lt htoken htoken' (by decide) htokens, haccount,
    natCast_inj_of_lt (BitVec.isLt _) (BitVec.isLt _) (by decide) hamounts]

/-! ## Signatures that are verified -/

variable [Babyjubjub]

/-- The signature of what an account signs has been verified. -/
def Verified (s : GlobalState lv) (a : ℕ) (signature : Vector UInt8 64) (signed : List Fr) : Prop :=
  s.hasAccount a ∧ ∃ sig pk, bytesToSig signature = .ok sig ∧
    Babyjubjub.recoverPoint (s.keyOf a).2.toBigint ((s.keyOf a).1 ≠ 0) = .ok pk ∧
    Babyjubjub.verifyRawUsingPubkey (Fr.hash signed) sig pk = true

variable {s s' : GlobalState lv} {n n' : Node lv} {a : ℕ} {signature : Vector UInt8 64}
  {l l' : List Fr}

omit [RustDecimal] in
theorem Verified.of_checkSig {sig : SignatureBJJ} (hsig : bytesToSig signature = .ok sig)
    (h : s.checkSig a (Fr.hash l) sig = .ok ()) : Verified s a signature l := by
  rw [GlobalState.checkSig] at h
  split at h
  · cases h
  · next hkey =>
    obtain ⟨pk, hpk, h⟩ := Exec.bind_eq_ok_iff.1 h
    refine ⟨not_not.1 hkey, sig, pk, hsig, hpk, ?_⟩
    by_contra hverify
    rw [if_neg hverify] at h
    cases h

omit [RustDecimal] in
/-- Under one key, a signature is that of one message. -/
theorem Verified.hash_eq (hone : Babyjubjub.SignsOne) (h : Verified s a signature l)
    (h' : Verified s' a signature l') (hkey : s'.keyOf a = s.keyOf a) : Fr.hash l = Fr.hash l' := by
  obtain ⟨hacc, sig, pk, hsig, hpk, hverify⟩ := h
  obtain ⟨-, sig', pk', hsig', hpk', hverify'⟩ := h'
  rw [hkey, hpk] at hpk'
  obtain rfl := Except.ok.inj (hsig.symm.trans hsig')
  obtain rfl := Except.ok.inj hpk'
  exact hone _ _ _ hacc hpk sig _ _ hverify hverify'

omit [RustDecimal] in
/-- What an account with the same key has signed with the same signature is the same. -/
theorem Verified.signed_eq (hone : Babyjubjub.SignsOne) {a' : ℕ} {signature' : Vector UInt8 64}
    (h : Verified s a signature l) (h' : Verified s' a' signature' l') (ha : a = a')
    (hsig : signature = signature') (hkey : ∀ a, s.hasAccount a → s'.keyOf a = s.keyOf a)
    (hinj : Fr.hash l = Fr.hash l' → l = l') : l = l' := by
  subst ha hsig
  exact hinj (h.hash_eq hone h' (hkey _ h.1))

theorem handleWithdrawMsg_verified {message : Message WithdrawMessage}
    (hr : Processor.default.handleWithdrawMsg n message = .ok n') :
    ∃ tx, message.message.tx = .ok tx ∧ tx.accountId = message.message.userId ∧
      tx.tokenId < 2 ^ 32 ∧ Verified n.state tx.accountId message.message.signature tx.signed := by
  obtain ⟨tx, prec, sig, hc, -⟩ := exists_checked hr
  obtain ⟨amount, hamount, htx⟩ := hc.amount
  refine ⟨tx, ?_, by rw [htx]; rfl, getTokenIdByName_lt hc.tokenId,
    .of_checkSig hc.signature hc.checked⟩
  simp only [WithdrawMessage.tx, hc.tokenId, hc.precision, hamount, Exec.ok_bind]
  exact congrArg Except.ok htx.symm

theorem handleTransferMsg_verified [DecimalExt] {schedule : Shuffle Task}
    {message : Message TransferMessage} (h : ∃ L, Shows n.state L)
    (hr : Processor.default.handleTransferMsg n schedule message = .ok n') :
    ∃ tx, message.message.tx = .ok tx ∧ tx.fromId = message.message.userFrom ∧
      tx.tokenId < 2 ^ 32 ∧ tx.toId < 2 ^ 32 ∧
      Verified n.state tx.fromId message.message.signature tx.signed := by
  obtain ⟨-, hr⟩ := Exec.assert_bind_eq_ok_iff.1 hr
  obtain ⟨tokenId, htoken, hr⟩ := Exec.bind_eq_ok_iff.1 hr
  obtain ⟨_, -, hr⟩ := Exec.bind_eq_ok_iff.1 hr
  obtain ⟨prec, hprec, hr⟩ := Exec.bind_eq_ok_iff.1 hr
  obtain ⟨_, -, hr⟩ := Exec.bind_eq_ok_iff.1 hr
  obtain ⟨-, hr⟩ := Exec.assert_bind_eq_ok_iff.1 hr
  obtain ⟨rawSig, hrawSig, hr⟩ := Exec.bind_eq_ok_iff.1 hr
  obtain ⟨amount, hamount, hr⟩ := Exec.bind_eq_ok_iff.1 hr
  obtain ⟨_, hsig, hst⟩ := Exec.bind_eq_ok_iff.1 hr
  obtain ⟨⟨rawTx, s⟩, hr, -⟩ := Exec.bind_eq_ok_iff.1 hst
  obtain ⟨⟨raw, s⟩, hr, -⟩ := Exec.bind_eq_ok_iff.1 hr
  -- the receiver exists
  obtain ⟨L, hL⟩ := h
  obtain ⟨hcan, -⟩ := transfer_spec hL hr
  obtain ⟨f, hf⟩ := hcan.receiver
  have hto := Levels.account_lt_u32 (hL.lt hf)
  change Processor.check ⟨true⟩ _ = _ at hsig
  rw [Processor.check, if_pos rfl, checkTransferSig, Exec.unwrap_eq_ok_iff,
    Exec.toOption_eq_some_iff] at hsig
  refine ⟨TransferTx.new message.message.userFrom message.message.userTo tokenId
    (.ofNat 128 amount.toNat), ?_, rfl, getTokenIdByName_lt htoken, hto, .of_checkSig hrawSig hsig⟩
  simp only [TransferMessage.tx, htoken, hprec, hamount, Exec.ok_bind]
  rfl

/-! ## Runs -/

variable [DecimalExt] [UserKey]

/-- Two messages that are accepted with the same signature are on the same movement. -/
theorem movement_eq_of_handleMsg (hone : Babyjubjub.SignsOne) {m m' : WrappedMessage}
    (hhash : ∀ l, m.signed = .ok l → ∀ l', m'.signed = .ok l' → Fr.hash l = Fr.hash l' → l = l')
    {n₁ n₁' : Node lv} {schedule schedule' : Shuffle Task} (h : ∃ L, Shows n.state L)
    (h' : ∃ L, Shows n'.state L) (hr : Processor.default.handleMsg n schedule m = .ok n₁)
    (hr' : Processor.default.handleMsg n' schedule' m' = .ok n₁')
    (hkey : ∀ a, n.state.hasAccount a → n'.state.keyOf a = n.state.keyOf a)
    (hsome : m.signer.isSome) (hsigner : m.signer = m'.signer)
    (hsig : m.signature = m'.signature) : m.movement = m'.movement := by
  -- the messages are of one kind, which their signer has
  cases m with
  | transfer m =>
    cases m' with
    | transfer m' =>
      obtain ⟨tx, htx, hfrom, htoken, hto, hver⟩ := handleTransferMsg_verified h hr
      obtain ⟨tx', htx', hfrom', htoken', hto', hver'⟩ := handleTransferMsg_verified h' hr'
      have hfroms : tx.fromId = tx'.fromId :=
        hfrom.trans ((Prod.mk.inj (Option.some.inj hsigner)).2.trans hfrom'.symm)
      have hsigned : tx.signed = tx'.signed :=
        hver.signed_eq hone hver' hfroms (Option.some.inj hsig) hkey <|
          hhash _ (by rw [WrappedMessage.signed, htx]; rfl) _
            (by rw [WrappedMessage.signed, htx']; rfl)
      rw [WrappedMessage.movement, WrappedMessage.movement, htx, htx']
      exact congrArg Except.ok (TransferTx.movement_eq htoken htoken' hto hto' hsigned)
    | _ => cases hsigner
  | withdraw m =>
    cases m' with
    | withdraw m' =>
      obtain ⟨tx, htx, haccount, htoken, hver⟩ := handleWithdrawMsg_verified hr
      obtain ⟨tx', htx', haccount', htoken', hver'⟩ := handleWithdrawMsg_verified hr'
      have haccounts : tx.accountId = tx'.accountId :=
        haccount.trans ((Prod.mk.inj (Option.some.inj hsigner)).2.trans haccount'.symm)
      have hsigned : tx.signed = tx'.signed :=
        hver.signed_eq hone hver' haccounts (Option.some.inj hsig) hkey <|
          hhash _ (by rw [WrappedMessage.signed, htx]; rfl) _
            (by rw [WrappedMessage.signed, htx']; rfl)
      rw [WrappedMessage.movement, WrappedMessage.movement, htx, htx']
      exact congrArg Except.ok (WithdrawTx.movement_eq htoken htoken' haccounts hsigned)
    | _ => cases hsigner
  | _ => cases hsome

omit [FluidexCommon] [RustDecimal] [Babyjubjub] [DecimalExt] [UserKey] in
theorem wrapped_cons_msg [RustDecimal] (m : WrappedMessage) (schedule : Shuffle Task)
    (rs : List Received) : wrapped (.msg m schedule :: rs) = m :: wrapped rs := rfl

/-- A message of a run is handled in some state of it. -/
theorem exists_handleMsg {rs : List Received} (hrun : Exec.run Node.processMsg n rs = .ok n')
    {m : WrappedMessage} (hm : m ∈ wrapped rs) : ∃ pre n₁ schedule n₂,
      Exec.run Node.processMsg n pre = .ok n₁ ∧
        Processor.default.handleMsg n₁ schedule m = .ok n₂ := by
  induction rs generalizing n with
  | nil => cases hm
  | cons r rs ih =>
    obtain ⟨n₁, hr, hrs⟩ := Exec.run_cons.1 hrun
    have hrest (hm : m ∈ wrapped rs) : ∃ pre n₁ schedule n₂,
        Exec.run Node.processMsg n pre = .ok n₁ ∧
          Processor.default.handleMsg n₁ schedule m = .ok n₂ := by
      obtain ⟨pre, n₂, schedule, n₃, hpre, hm⟩ := ih hrs hm
      exact ⟨r :: pre, n₂, schedule, n₃, Exec.run_cons.2 ⟨n₁, hr, hpre⟩, hm⟩
    cases r with
    | timeout => exact hrest hm
    | msg m' schedule =>
      rcases List.mem_cons.1 hm with rfl | hm
      · obtain ⟨n₂, hrec, -⟩ := Exec.bind_eq_ok_iff.1 hr
        exact ⟨[], n, schedule, n₂, rfl, hrec⟩
      · exact hrest hm

theorem pairwise_of_run (hone : Babyjubjub.SignsOne) {rs : List Received}
    (hhash : CollisionFree (wrapped rs)) (h : ∃ L, Shows n.state L)
    (hrun : Exec.run Node.processMsg n rs = .ok n')
    (hfresh : (wrapped rs).Pairwise fun m m' => m.movement = m'.movement → m.SignedApart m') :
    (wrapped rs).Pairwise WrappedMessage.SignedApart := by
  induction rs generalizing n with
  | nil => exact .nil
  | cons r rs ih =>
    obtain ⟨n₁, hr, hrs⟩ := Exec.run_cons.1 hrun
    obtain ⟨ops, hops, hrun₁⟩ := Node.run_of_processMsg hr
    have h₁ := Node.exists_shows_run h hrun₁
    cases r with
    | timeout => exact ih hhash h₁ hrs hfresh
    | msg m schedule =>
      rw [wrapped_cons_msg] at hhash hfresh ⊢
      obtain ⟨hfirst, hfresh⟩ := List.pairwise_cons.1 hfresh
      have hhash' : CollisionFree (wrapped rs) := fun m₁ hm₁ m₂ hm₂ =>
        hhash m₁ (List.mem_cons_of_mem _ hm₁) m₂ (List.mem_cons_of_mem _ hm₂)
      refine List.pairwise_cons.2 ⟨fun m' hm' hsome hsigner hsig => ?_, ih hhash' h₁ hrs hfresh⟩
      obtain ⟨pre, n₂, schedule', n₃, hpre, hm₂⟩ := exists_handleMsg hrs hm'
      obtain ⟨ops', hops', hrun₂⟩ := Node.run_of_run_processMsg hpre
      -- the key is that of the first message
      have hall : Exec.run Node.step n (ops ++ ops') = .ok n₂ :=
        Exec.run_append.2 ⟨n₁, hrun₁, hrun₂⟩
      have hkey (a : ℕ) (ha : n.state.hasAccount a) : n₂.state.keyOf a = n.state.keyOf a :=
        Node.keyOf_of_run h (fun op hop => (List.mem_append.1 hop).elim (hops op) (hops' op)) hall ha
      obtain ⟨n₄, hrec, -⟩ := Exec.bind_eq_ok_iff.1 hr
      have hmove := movement_eq_of_handleMsg hone
        (hhash m List.mem_cons_self m' (List.mem_cons_of_mem _ hm')) h
        (Node.exists_shows_run h hall) hrec hm₂ hkey hsome hsigner hsig
      exact hfirst m' hm' hmove hsome hsigner hsig

/-- The signatures of an account are all different exactly when those of its messages on a
    same movement are. -/
theorem signedOnce_iff (hone : Babyjubjub.SignsOne) {nTx persistEveryNBlock : ℕ}
    {blockOffset : Option ℕ} {rs : List Received} (hhash : CollisionFree (wrapped rs))
    (hrun : Exec.run Node.processMsg (Node.new lv nTx blockOffset persistEveryNBlock) rs = .ok n) :
    (wrapped rs).Pairwise WrappedMessage.SignedApart ↔
      (wrapped rs).Pairwise fun m m' => m.movement = m'.movement → m.SignedApart m' :=
  ⟨fun h => h.imp fun {_ _} hapart _ hsome => hapart hsome,
    pairwise_of_run hone hhash ⟨_, shows_new lv⟩ hrun⟩

end Replays

/-! ## A signature that is used twice -/

section Example

attribute [local instance] FluidexCommon.sample RustDecimal.sample Babyjubjub.sample
  DecimalExt.sample UserKey.sample

/-- The account `0` transfers some `ETH`, with the signature for two `ETH`. -/
def payEth (userTo : ℕ) (amount : ℚ) (offset : ℤ) : Received :=
  .msg (.transfer ⟨{
    userFrom := 0
    userTo
    asset := "ETH"
    amount
    signature := Babyjubjub.sampleSign (TransferTx.new 0 userTo 0 20000).hash usersKey },
    some offset⟩) .id

/-- The messages before the transfers. -/
def threeUsers : List Received := [newUser 0 1, newUser 1 2, newUser 2 3, depositFive 4]

theorem Babyjubjub.signsOne_sample : Babyjubjub.SignsOne := by
  intro ay sign pk hay hpk sig msg msg' hmsg hmsg'
  obtain rfl := Except.ok.inj hpk
  have hval : ay.toBigint ≠ 0 := by
    rw [Fr.toBigint, Ne, Int.natCast_eq_zero, ZMod.val_eq_zero]
    exact hay
  have hvals := (of_decide_eq_true hmsg).symm.trans (of_decide_eq_true hmsg')
  exact ZMod.val_injective _ (Nat.cast_injective (mul_right_cancel₀ hval hvals))

/-- The account pays two others. -/
theorem signedOnce_payBoth :
    (wrapped (threeUsers ++ [payEth 1 2 5, payEth 2 2 6])).Pairwise WrappedMessage.SignedApart := by
  obtain ⟨n, hn⟩ := Exec.exists_eq_ok (Exec.run Node.processMsg (Node.new Levels.small 2 none 1)
    (threeUsers ++ [payEth 1 2 5, payEth 2 2 6])) (by decide +kernel)
  refine (signedOnce_iff Babyjubjub.signsOne_sample (by decide +kernel) hn).2 (by decide +kernel)

/-- The account pays twice with one signature. -/
theorem not_signedOnce_payTwice : ∃ n,
    Exec.run Node.processMsg (Node.new Levels.small 2 none 1)
      (threeUsers ++ [payEth 1 2 5, payEth 1 3 6]) = .ok n ∧
    ¬(wrapped (threeUsers ++ [payEth 1 2 5, payEth 1 3 6])).Pairwise
      WrappedMessage.SignedApart := by
  obtain ⟨n, hn⟩ := Exec.exists_eq_ok (Exec.run Node.processMsg (Node.new Levels.small 2 none 1)
    (threeUsers ++ [payEth 1 2 5, payEth 1 3 6])) (by decide +kernel)
  exact ⟨n, hn, by decide +kernel⟩

end Example

end Rollup
