import Rollup.Availability
import Rollup.Exchange
import Rollup.Ledger.Accepts
import Rollup.Publishing

/-!
# What the manager cannot refuse

The manager refuses a transaction by an error, and panics otherwise: over a failed check, a block
that cannot be encoded, a dump without an offset. Nothing of this happens as long as the books can
do the bookings, one after the other (`serves_iff_bookAll`): keys, deposits, transfers and
withdrawals are then all accepted, whenever the blocks are filled and popped.

The transactions have to be well formed (`Op.Admissible`), i.e., their accounts and tokens have
leaves, a transfer is to another account, and they come with the offsets of their messages, which
is what a dump needs: a block that is filled up starts with a transaction, as a flush adds to no
block that is complete. Being accepted is not all that is asked of them: the manager does not check
that a withdrawal is covered, nor that the receiver of a transfer and the account that withdraws
have keys, which the books do (`Op.Covered`).
-/

namespace Rollup

section Accepting

open Books (Booking)

variable [FluidexCommon] {lv : Levels} {s s' : GlobalState lv} {n n' : Node lv} {L : Ledger lv}
  {B B' : Books}

/-! ## Transactions -/

/-- The operations that the processor calls for a user, besides the trades. A transfer is to
    another account. -/
def Op.Admissible (lv : Levels) : Op → Prop
  | .keyUpdate tx offset => tx.accountId < 2 ^ lv.accountLevels ∧ tx.l2key.ay ≠ 0 ∧
      (tx.l2key.sign = 0 ∨ tx.l2key.sign = 1) ∧ offset.isSome
  | .deposit tx offset => tx.l2key = none ∧ tx.tokenId < 2 ^ lv.balanceLevels ∧ offset.isSome
  | .transfer _ tx offset => tx.l2key = none ∧ tx.tokenId < 2 ^ lv.balanceLevels ∧
      tx.fromId ≠ tx.toId ∧ offset.isSome
  | .withdraw tx offset => tx.tokenId < 2 ^ lv.balanceLevels ∧ offset.isSome
  | .flushWithNop | .popAllBlocks => True
  | _ => False

omit [FluidexCommon] in
instance (lv : Levels) : (op : Op) → Decidable (op.Admissible lv)
  | .keyUpdate tx offset => inferInstanceAs (Decidable (tx.accountId < 2 ^ lv.accountLevels ∧
      tx.l2key.ay ≠ 0 ∧ (tx.l2key.sign = 0 ∨ tx.l2key.sign = 1) ∧ offset.isSome))
  | .deposit tx offset => inferInstanceAs
      (Decidable (tx.l2key = none ∧ tx.tokenId < 2 ^ lv.balanceLevels ∧ offset.isSome))
  | .transfer _ tx offset => inferInstanceAs
      (Decidable (tx.l2key = none ∧ tx.tokenId < 2 ^ lv.balanceLevels ∧ tx.fromId ≠ tx.toId ∧
        offset.isSome))
  | .withdraw tx offset => inferInstanceAs
      (Decidable (tx.tokenId < 2 ^ lv.balanceLevels ∧ offset.isSome))
  | .flushWithNop | .popAllBlocks => .isTrue trivial
  | .createNewAccount _ | .setAccountL2Addr _ _ _ | .setAccountNonce _ _ | .setAccountOrder _ _ _
  | .setTokenBalance _ _ _ | .fullSpotTrade _ _ _ | .cancelOrder _ _ | .nop => .isFalse id

/-- What a transaction takes is there, the receiver of a transfer has a key, and so has the
    account that withdraws. -/
def Op.Covered (s : GlobalState lv) : Op → Prop
  | .transfer _ tx _ => s.hasAccount tx.toId
  | .withdraw tx _ => s.hasAccount tx.accountId ∧
      tx.amount.toNat ≤ (s.balanceOf tx.accountId tx.tokenId).val
  | _ => True

namespace Op.Admissible

variable {op : Op}

omit [FluidexCommon] in
theorem ofProcessor (hop : op.Admissible lv) : op.OfProcessor := by
  cases op with
  | deposit _ _ | transfer _ _ _ => exact hop.1
  | keyUpdate _ _ | withdraw _ _ | flushWithNop | popAllBlocks => trivial
  | _ => exact hop.elim

omit [FluidexCommon] in
theorem proper (hop : op.Admissible lv) : ∀ k ∈ op.bookings, k.Proper lv := by
  cases op with
  | keyUpdate _ _ => exact List.forall_mem_singleton.2 hop.2.1
  | deposit _ _ | transfer _ _ _ =>
    rw [Op.bookings, hop.1]
    exact List.forall_mem_singleton.2 hop.2.1
  | withdraw _ _ => exact List.forall_mem_singleton.2 hop.1
  | flushWithNop | popAllBlocks => exact List.forall_mem_nil _
  | _ => exact hop.elim

/-- Admissible operations that are covered are those the books can follow. -/
theorem bookable_iff (hop : op.Admissible lv) : op.Bookable s ↔ op.Covered s := by
  cases op with
  | keyUpdate _ _ => exact iff_of_true hop.2.1 trivial
  | deposit tx _ =>
    refine iff_of_true ⟨hop.2.1, fun k hk => ?_⟩ trivial
    rw [hop.1] at hk
    cases hk
  | transfer _ tx _ =>
    obtain ⟨hnone, htoken, hne, -⟩ := hop
    refine ⟨fun h => h.2.2.1.1 hnone, fun h => ⟨htoken, hne, iff_of_true hnone h, fun k hk => ?_⟩⟩
    rw [hnone] at hk
    cases hk
  | withdraw _ _ => exact and_iff_right hop.1
  | flushWithNop | popAllBlocks => exact Iff.rfl
  | _ => exact hop.elim

/-- What the books can do, the manager can publish. -/
theorem regular (hop : op.Admissible lv) (hbookable : op.Bookable s) : op.Regular s := by
  cases op with
  | keyUpdate _ _ =>
    exact ⟨trivial, List.forall_mem_singleton.2 (Nat.two_pow_pos _), hop.2.2.1⟩
  | deposit _ _ | transfer _ _ _ =>
    exact ⟨trivial, List.forall_mem_singleton.2 hop.2.1, hop.1⟩
  | withdraw _ _ => exact ⟨trivial, List.forall_mem_singleton.2 hop.1, hbookable.2.1⟩
  | flushWithNop | popAllBlocks => exact ⟨trivial, List.forall_mem_nil _, trivial⟩
  | _ => exact hop.elim

end Op.Admissible

theorem GlobalState.Keeps.hasAccount (hB : s.Keeps B) {a : ℕ} (ha : B.key a ≠ none) :
    s.hasAccount a :=
  not_not.1 ((hB.key_eq_none_iff a).not.1 ha)

/-- A transaction is accepted if the books can do its bookings. -/
theorem exists_runs_of_bookAll (h : Shows s L) (hread : ∀ a, (L.entry a).Readable) (hB : s.Keeps B)
    {op : Op} (hop : op.Admissible lv) (hbook : B.bookAll op.bookings = some B')
    (hbookings : op.bookings ≠ []) : ∃ L', L.Runs op L' := by
  have hkeyed {a : ℕ} (ha : B.key a ≠ none) : ∃ e, L a = some e ∧ e.state.ay ≠ 0 :=
    h.exists_of_hasAccount (hB.hasAccount ha)
  cases op with
  | keyUpdate tx _ =>
    obtain ⟨B₁, hk, -⟩ := Option.bind_eq_some_iff.1 hbook
    have hnone : B.key tx.accountId = none := (Books.book_eq_some_iff.1 hk).1
    -- The books know no key, so the account has none.
    have hay : (L.entry tx.accountId).state.ay = 0 := by
      by_contra hay
      exact (hB.key_eq_none_iff _).1 hnone ((h.hasAccount_iff _).2 hay)
    obtain ⟨t, ht⟩ := (L.entry tx.accountId).balanceTree.exists_setValue (Nat.two_pow_pos _) 0
    exact ⟨_, .keyUpdate hay hop.1 ht⟩
  | deposit tx _ =>
    obtain ⟨hnone, htoken, -⟩ := hop
    rw [Op.bookings, hnone] at hbook
    obtain ⟨B₁, hk, -⟩ := Option.bind_eq_some_iff.1 hbook
    obtain ⟨e, he, hay⟩ := hkeyed (Books.book_eq_some_iff.1 hk).1
    obtain ⟨t, ht⟩ := (L.entry tx.accountId).balanceTree.exists_setValue htoken
      ((L.entry tx.accountId).balance tx.tokenId + tx.amount.toFr)
    refine ⟨_, .deposit (iff_of_true hnone ?_) (h.lt he) ht⟩
    rwa [Ledger.entry_of_some he]
  | transfer _ tx _ =>
    obtain ⟨hnone, htoken, -⟩ := hop
    rw [Op.bookings, hnone] at hbook
    obtain ⟨B₁, hk, -⟩ := Option.bind_eq_some_iff.1 hbook
    obtain ⟨⟨hne, hfrom, hto⟩, balances, hentries, -⟩ := Books.book_eq_some_iff.1 hk
    obtain ⟨f, hf, -⟩ := hkeyed hto
    -- An entry that is made takes no more than there is.
    have hle : tx.amount.toNat ≤ B.balances tx.fromId tx.tokenId := by
      by_contra hlt
      rw [Booking.entries, Bookkeeping.move, Bookkeeping.enterAll_cons, Bookkeeping.enter,
        if_neg hlt] at hentries
      cases hentries
    refine ⟨_, .transfer hne ⟨hkeyed hfrom, ?_, f, hf⟩⟩
    rw [U128.toFr_val, h.balance_of_readable (hread _) htoken]
    rwa [hB.balances] at hle
  | withdraw tx _ =>
    obtain ⟨B₁, hk, -⟩ := Option.bind_eq_some_iff.1 hbook
    obtain ⟨e, he, -⟩ := hkeyed (Books.book_eq_some_iff.1 hk).1
    obtain ⟨t, ht⟩ := (L.entry tx.accountId).balanceTree.exists_setValue hop.1
      ((L.entry tx.accountId).balance tx.tokenId - tx.amount.toFr)
    exact ⟨_, .withdraw (h.lt he) ht⟩
  | flushWithNop | popAllBlocks => exact absurd rfl hbookings
  | _ => exact hop.elim

/-! ## Offsets -/

omit [FluidexCommon] in
/-- Filling up the last group starts no other one. -/
theorem mul_lt_of_lt_add_missing {nTx len k : ℕ} (hpos : 0 < nTx)
    (hk : k * nTx < len + (nTx - len % nTx) % nTx) : k * nTx < len := by
  have hlen := Nat.div_add_mod' len nTx
  rcases Nat.eq_zero_or_pos (len % nTx) with hzero | hmod
  · rwa [hzero, Nat.sub_zero, Nat.mod_self, Nat.add_zero] at hk
  · rw [Nat.mod_eq_of_lt (by omega)] at hk
    have hlt : k * nTx < (len / nTx + 1) * nTx := by
      have := Nat.mod_lt len hpos
      rw [Nat.add_one_mul]
      omega
    have hle : k * nTx ≤ len / nTx * nTx :=
      Nat.mul_le_mul_right nTx (Nat.lt_succ_iff.1 (Nat.lt_of_mul_lt_mul_right hlt))
    omega

theorem Op.Admissible.offset_isSome {op : Op} (hop : op.Admissible lv) (h : Shows s L) {raw : RawTx}
    (hr : s.apply op = .ok (some raw, s')) : raw.offset.isSome := by
  cases apply_emits h hr with
  | keyUpdate hof _ _ =>
    rw [hof.2]
    exact hop.2.2.2
  | deposit hof _ _ =>
    rw [hof.2]
    exact hop.2.2
  | transfer hof _ _ _ =>
    rw [hof.2]
    exact hop.2.2.2
  | withdraw hof _ _ =>
    rw [hof.2]
    exact hop.2
  | fullSpotTrade _ _ _ _ _ => exact hop.elim
  | nop hnop =>
    rcases hnop with rfl | rfl
    · exact hop.elim
    · cases hr

/-- Every group of `nTx` transactions starts with one that has an offset. -/
def StartsWithOffsets (nTx : ℕ) (txs : List RawTx) : Prop :=
  ∀ k, k * nTx < txs.length → ∃ tx, txs[k * nTx]? = some tx ∧ tx.offset.isSome

omit [FluidexCommon] in
/-- What is added starts no group, or has offsets. -/
theorem StartsWithOffsets.append {nTx : ℕ} {txs txs' : List RawTx} (h : StartsWithOffsets nTx txs)
    (h' : ∀ k, k * nTx < (txs ++ txs').length → k * nTx < txs.length ∨
      ∀ tx ∈ txs', tx.offset.isSome) : StartsWithOffsets nTx (txs ++ txs') := by
  intro k hk
  by_cases hlt : k * nTx < txs.length
  · rw [List.getElem?_append_left hlt]
    exact h k hlt
  · have hall := (h' k hk).resolve_left hlt
    refine ⟨_, List.getElem?_eq_getElem hk, hall _ ?_⟩
    rw [List.getElem_append_right (not_lt.1 hlt)]
    exact List.getElem_mem _

omit [FluidexCommon] in
theorem StartsWithOffsets.drop {nTx : ℕ} {txs : List RawTx} (h : StartsWithOffsets nTx txs)
    (j : ℕ) : StartsWithOffsets nTx (txs.drop (j * nTx)) := by
  intro k hk
  rw [List.getElem?_drop, ← Nat.add_mul]
  refine h (j + k) ?_
  rw [List.length_drop] at hk
  rw [Nat.add_mul]
  omega

/-- The buffer is what has been emitted after the blocks. -/
theorem Node.Publishes.buffer_eq {nTx : ℕ} (h : n.Publishes nTx) :
    n.manager.bufferedTxs = n.emitted.drop (n.blocks.length * nTx) ∧
      n.emitted.length = n.blocks.length * nTx + n.manager.bufferedTxs.length := by
  obtain ⟨groups, hgroups, hflat⟩ := h
  have hlength : groups.flatten.length = n.blocks.length * nTx := by
    rw [hgroups.length_eq]
    refine Bits.length_flatten_of fun group hgroup => ?_
    obtain ⟨_, -, hpublishes⟩ := Bits.exists_mem_of_forall₂ hgroups hgroup
    exact hpublishes.length_eq
  rw [← hflat, ← hlength, List.drop_left, List.length_append]
  exact ⟨rfl, rfl⟩

namespace Node

variable {nTx persistEveryNBlock : ℕ} {blockOffset : Option ℕ}

theorem startsWithOffsets (hnTx : 0 < nTx)
    (hn : Exec.Reachable step (fun _ op => op.Admissible lv)
      (new lv nTx blockOffset persistEveryNBlock) n) :
    StartsWithOffsets nTx n.emitted ∧ n.persistEveryNBlock = persistEveryNBlock := by
  refine hn.invariant ⟨fun k hk => absurd hk (Nat.not_lt_zero _), rfl⟩ ?_
  intro m op m' hm hs hop hst
  obtain ⟨hstarts, hpersist⟩ := hs
  cases step_stepped hst with
  | flush _ =>
    -- the length of what has been emitted is that of the buffer, up to whole groups
    obtain ⟨-, hlength⟩ := (publishes hm).buffer_eq
    have hmod : m.emitted.length % nTx = m.manager.bufferedTxs.length % nTx := by
      rw [hlength, Nat.mul_add_mod']
    refine ⟨hstarts.append fun k hk => .inl (mul_lt_of_lt_add_missing hnTx ?_), hpersist⟩
    rwa [List.length_append, List.length_replicate, ManagerWrapper.missingTxs,
      (buffered hm).nTx_eq, ← hmod] at hk
  | pop _ => exact ⟨hstarts, hpersist⟩
  | @apply _ raw _ hr =>
    cases raw with
    | none => exact ⟨hstarts, hpersist⟩
    | some raw =>
      obtain ⟨L, h⟩ := exists_shows hm
      refine ⟨hstarts.append fun k _ => .inr (List.forall_mem_singleton.2 ?_), hpersist⟩
      exact hop.offset_isSome h hr

end Node

/-! ## Blocks -/

namespace ManagerWrapper

variable {m : ManagerWrapper lv} {e : TxDataEncoder} {persistEveryNBlock : ℕ}

omit [FluidexCommon] in
theorem exists_persistEvery (hpersist : 0 < persistEveryNBlock) {i : ℕ}
    (hoffset : ∃ tx ∈ m.blockTxs i, tx.offset.isSome) :
    ∃ snapshots, m.persistEvery persistEveryNBlock i = .ok snapshots := by
  obtain ⟨tx, htx, hsome⟩ := hoffset
  obtain ⟨offset, hoffset⟩ := Option.isSome_iff_exists.1 hsome
  have hmem : offset ∈ (m.blockTxs i).reverse.filterMap RawTx.offset :=
    List.mem_filterMap.2 ⟨tx, List.mem_reverse.2 htx, hoffset⟩
  have hhead : (((m.blockTxs i).reverse.filterMap RawTx.offset).head?).isSome :=
    List.isSome_head?.2 (List.ne_nil_of_mem hmem)
  obtain ⟨kafkaOffset, hkafka⟩ := Option.isSome_iff_exists.1 hhead
  have hassert : Exec.assert Panic.divisionByZero (persistEveryNBlock ≠ 0) = .ok () :=
    Exec.assert_of hpersist.ne'
  rw [persistEvery, hassert, Exec.ok_bind]
  split
  · rw [persist, hkafka]
    exact ⟨_, rfl⟩
  · exact ⟨_, rfl⟩

/-- The blocks are popped if what is in them can be encoded, and has offsets. -/
theorem Encodes.exists_popLoop (hm : m.Encodes e) (hnTx : 0 < m.nTx)
    (hpersist : 0 < persistEveryNBlock) (hpublishable : ∀ tx ∈ m.bufferedTxs, tx.Publishable e)
    {i fuel : ℕ} (hstarts : StartsWithOffsets m.nTx (m.bufferedTxs.drop i)) :
    ∃ r, m.popLoop persistEveryNBlock i fuel = .ok r := by
  induction fuel generalizing m i with
  | zero => exact ⟨_, rfl⟩
  | succ fuel ih =>
    rw [popLoop]
    split
    · next hi =>
      have hlength : (m.blockTxs i).length = m.nTx := by
        rw [blockTxs, List.length_take, List.length_drop]
        omega
      have hne : m.blockTxs i ≠ [] := List.ne_nil_of_length_pos (hlength ▸ hnTx)
      obtain ⟨block, hforge⟩ := (forgeWithTxs_ok_iff hm.sized (hm.blockTxs_ne i)).2
        ⟨hne, fun tx htx => hpublishable tx (List.mem_of_mem_drop (List.mem_of_mem_take htx))⟩
      -- the first transaction of the block has an offset
      have hoffset : ∃ tx ∈ (m.nextBlock (e.holding [])).blockTxs i, tx.offset.isSome := by
        obtain ⟨tx, htx, hsome⟩ := hstarts 0 (by
          rw [Nat.zero_mul, List.length_drop]
          omega)
        rw [Nat.zero_mul] at htx
        have hfirst : (m.blockTxs i)[0]? = some tx := by
          rwa [blockTxs, List.getElem?_take_of_lt hnTx]
        exact ⟨tx, List.mem_of_getElem? hfirst, hsome⟩
      obtain ⟨snapshots, hsnapshots⟩ := exists_persistEvery hpersist hoffset
      have hstarts' : StartsWithOffsets m.nTx (m.bufferedTxs.drop (i + m.nTx)) := by
        have hdrop := hstarts.drop 1
        rwa [Nat.one_mul, List.drop_drop] at hdrop
      obtain ⟨r, hr⟩ := ih (m := m.nextBlock (e.holding [])) hm.nextBlock hnTx hpublishable hstarts'
      rw [hm.encoder, hforge, Exec.ok_bind]
      dsimp only
      rw [hsnapshots, Exec.ok_bind]
      change ∃ r', (m.nextBlock (e.holding [])).popLoop persistEveryNBlock (i + m.nTx) fuel >>= _ =
        .ok r'
      rw [hr]
      exact ⟨_, rfl⟩
    · exact ⟨_, rfl⟩

theorem Encodes.exists_popAllBlocks (hm : m.Encodes e) (hnTx : 0 < m.nTx)
    (hpersist : 0 < persistEveryNBlock) (hpublishable : ∀ tx ∈ m.bufferedTxs, tx.Publishable e)
    (hstarts : StartsWithOffsets m.nTx m.bufferedTxs) :
    ∃ r, m.popAllBlocks persistEveryNBlock = .ok r := by
  have hloop : ∃ r, m.popLoop persistEveryNBlock 0 (m.bufferedTxs.length + 1) = .ok r :=
    hm.exists_popLoop hnTx hpersist hpublishable (by rwa [List.drop_zero])
  obtain ⟨r, hr⟩ := hloop
  rw [ManagerWrapper.popAllBlocks, hr]
  exact ⟨_, rfl⟩

end ManagerWrapper

/-! ## Runs -/

variable [FluidexCommon.Documented] {nTx persistEveryNBlock : ℕ} {blockOffset : Option ℕ}
  {ops : List Op}

namespace Node

/-- The operations are all done, their transactions all accepted, and each of them is covered in
    the state it meets. -/
def Serves (n : Node lv) (ops : List Op) : Prop :=
  (∃ n', Exec.run step n ops = .ok n') ∧
    Exec.Along step (fun m op => op.Covered m.state) n ops ∧
    n.bookings ops = ops.flatMap Op.bookings

omit [FluidexCommon.Documented] in
/-- What is emitted is added to the buffer. -/
theorem step_of_apply {op : Op} (hflush : op ≠ .flushWithNop) (hpop : op ≠ .popAllBlocks)
    {raw : Option RawTx} (hr : n.state.apply op = .ok (raw, s')) :
    n.step op = .ok ({ n with manager := { n.manager with state := s' } }.emit raw) := by
  unfold step
  split
  · exact absurd rfl hflush
  · exact absurd rfl hpop
  · rw [hr]
    rfl

/-- The transactions so far have been admissible, and could be published; the state keeps the
    books. -/
structure Live (nTx persistEveryNBlock : ℕ) (blockOffset : Option ℕ) (n : Node lv) (B : Books) :
    Prop where
  reachable : Exec.Reachable step (fun m op => op.Regular m.state ∧ op.Admissible lv)
    (new lv nTx blockOffset persistEveryNBlock) n
  keeps : n.state.Keeps B
  shows : ∃ L, Shows n.state L ∧ ∀ a, (L.entry a).Readable

namespace Live

variable (h : n.Live nTx persistEveryNBlock blockOffset B)
include h

/-- Without trades, all that has been emitted can be encoded. -/
theorem publishable {tx : RawTx} (htx : tx ∈ n.emitted) : tx.Publishable (encoder lv) := by
  refine (publishable_iff (h.reachable.mono fun _ _ hop => hop.1) htx).2 ?_
  obtain ⟨m, op, L, -, hop, -, hemits⟩ := exists_emits h.reachable htx
  refine hemits.completesOrder ?_
  cases op with
  | fullSpotTrade _ _ _ => exact hop.2.elim
  | _ => trivial

theorem exists_popAllBlocks (hnTx : 0 < nTx) (hpersist : 0 < persistEveryNBlock) :
    ∃ r, n.manager.popAllBlocks n.persistEveryNBlock = .ok r := by
  have hbuffered := buffered h.reachable
  obtain ⟨hstarts, hpersistEvery⟩ := startsWithOffsets hnTx (h.reachable.mono fun _ _ hop => hop.2)
  obtain ⟨hbuffer, -⟩ := (publishes h.reachable).buffer_eq
  refine hbuffered.encodes.exists_popAllBlocks (hbuffered.nTx_eq ▸ hnTx)
    (hpersistEvery ▸ hpersist) (fun tx htx => h.publishable (hbuffered.emitted tx htx)) ?_
  rw [hbuffered.nTx_eq, hbuffer]
  exact hstarts.drop _

/-- An admissible operation is done, and accepted, if the books can do its bookings. -/
theorem exists_step (hnTx : 0 < nTx) (hpersist : 0 < persistEveryNBlock) {op : Op}
    (hop : op.Admissible lv) (hbook : B.bookAll op.bookings = some B') :
    ∃ n', n.step op = .ok n' ∧ n.state.booked op = op.bookings := by
  obtain ⟨L, hL, hread⟩ := h.shows
  have happly (hne : op.bookings ≠ []) (hflush : op ≠ .flushWithNop) (hpop : op ≠ .popAllBlocks) :
      ∃ n', n.step op = .ok n' ∧ n.state.booked op = op.bookings := by
    obtain ⟨L', hruns⟩ := exists_runs_of_bookAll hL hread h.keeps hop hbook hne
    obtain ⟨raw, s', hr, -⟩ := hruns.exists_apply hL
    exact ⟨_, step_of_apply hflush hpop hr, GlobalState.booked_some hr⟩
  cases op with
  | keyUpdate _ _ | withdraw _ _ => exact happly (List.cons_ne_nil _ _) nofun nofun
  | deposit _ _ | transfer _ _ _ =>
    exact happly (List.append_ne_nil_of_right_ne_nil _ (List.cons_ne_nil _ _)) nofun nofun
  | flushWithNop =>
    have hflush := ManagerWrapper.flushWithNop_eq_ok_iff.2
      ⟨(buffered h.reachable).nTx_eq ▸ hnTx, rfl⟩
    exact ⟨_, by rw [step, hflush]; rfl, GlobalState.booked_none rfl⟩
  | popAllBlocks =>
    obtain ⟨r, hr⟩ := h.exists_popAllBlocks hnTx hpersist
    exact ⟨_, by rw [step, hr]; rfl, GlobalState.booked_none rfl⟩
  | _ => exact hop.elim

end Live

/-- Admissible operations are all done, and accepted, if the books can do their bookings. -/
theorem Live.serves (hnTx : 0 < nTx) (hpersist : 0 < persistEveryNBlock)
    (h : n.Live nTx persistEveryNBlock blockOffset B) (hops : ∀ op ∈ ops, op.Admissible lv)
    (hbook : B.bookAll (ops.flatMap Op.bookings) = some B')
    (hbound : ∀ t, Bookkeeping.total lv.accounts B.balances t +
      Books.deposited t (ops.flatMap Op.bookings) < Fr.modulus) :
    n.Serves ops := by
  induction ops generalizing n B with
  | nil => exact ⟨⟨n, rfl⟩, trivial, rfl⟩
  | cons op ops ih =>
    obtain ⟨hop, hops⟩ := List.forall_mem_cons.1 hops
    rw [List.flatMap_cons, Books.bookAll_append] at hbook
    obtain ⟨B₁, hbook₁, hrest⟩ := Option.bind_eq_some_iff.1 hbook
    simp only [List.flatMap_cons, Books.deposited_append] at hbound
    -- The first operation is accepted because the books accept its entries.
    obtain ⟨n₁, hst, hbooked⟩ := h.exists_step hnTx hpersist hop hbook₁
    have hbookable := hop.ofProcessor.bookable h.keeps hbook₁ hop.proper
    obtain ⟨raw, hstate⟩ := step_state hst
    obtain ⟨L, hL, hread⟩ := h.shows
    have hperforms : n.state.Performs op.bookings n₁.state :=
      ⟨op, raw, hop.ofProcessor, hstate, rfl, hbooked⟩
    obtain ⟨hB₁, L₁, hL₁, hread₁⟩ := hperforms.keeps hL hread h.keeps hbook₁ hop.proper fun t => by
      have := hbound t
      omega
    have htotal := hL₁.total_bookAll hB₁ hbook₁
    have hlive : n₁.Live nTx persistEveryNBlock blockOffset B₁ :=
      ⟨h.reachable.step ⟨hop.regular hbookable, hop⟩ hst, hB₁, L₁, hL₁, hread₁⟩
    obtain ⟨⟨n', hrun⟩, halong, hbookings⟩ := ih hlive hops hrest fun t => by
      have := hbound t
      have := htotal t
      omega
    refine ⟨⟨n', Exec.run_cons.2 ⟨n₁, hst, hrun⟩⟩,
      ⟨hop.bookable_iff.1 hbookable, fun m hm => ?_⟩, ?_⟩
    · -- the step leads to no other node
      obtain rfl := Except.ok.inj (hst.symm.trans hm)
      exact halong
    · rw [bookings, hbooked, hst, List.flatMap_cons, ← hbookings]

end Node

omit [FluidexCommon] [FluidexCommon.Documented] in
theorem Op.deposited_flatMap_le (ops : List Op) (token : ℕ) :
    Books.deposited token (ops.flatMap Op.bookings) ≤ ops.length * 2 ^ 128 := by
  induction ops with
  | nil => exact Nat.zero_le _
  | cons op ops ih =>
    have := op.deposited_bookings token
    rw [List.flatMap_cons, Books.deposited_append, List.length_cons]
    omega

/-- **Nothing is refused that the books can do.** Admissible operations are served from the start
    exactly if the books can do their bookings one after the other. -/
theorem serves_iff_bookAll (hnTx : 0 < nTx) (hpersist : 0 < persistEveryNBlock)
    (hops : ∀ op ∈ ops, op.Admissible lv) (hlen : ops.length < 2 ^ 125) :
    (Node.new lv nTx blockOffset persistEveryNBlock).Serves ops ↔
      ∃ B, Books.empty.bookAll (ops.flatMap Op.bookings) = some B := by
  have hbound t : Bookkeeping.total lv.accounts Books.empty.balances t +
      Books.deposited t (ops.flatMap Op.bookings) < Fr.modulus := by
    have hzero := Books.total_empty lv t
    have hmod : 2 ^ 253 ≤ Fr.modulus := by decide
    have := Op.deposited_flatMap_le ops t
    omega
  constructor
  · rintro ⟨⟨n, hrun⟩, halong, hbookings⟩
    obtain ⟨B, hbook, -⟩ := bookAll_of_run
      (n := Node.new lv nTx blockOffset persistEveryNBlock) (shows_new lv) (fun _ => .create lv _)
      (keeps_new lv) (halong.mono fun _ op hop => (hops op hop).bookable_iff.2) hrun
      (by rwa [hbookings])
    exact ⟨B, hbookings ▸ hbook⟩
  · rintro ⟨B, hbook⟩
    have hlive : (Node.new lv nTx blockOffset persistEveryNBlock).Live nTx persistEveryNBlock
        blockOffset .empty :=
      ⟨.init, keeps_new lv, _, shows_new lv, fun _ => .create lv _⟩
    exact hlive.serves hnTx hpersist hops hbook hbound

end Accepting

/-- Every block is dumped, the second one being filled up. -/
def servedOps : List Op :=
  [.keyUpdate ⟨0, ⟨1, 1, 5⟩⟩ (some 1), .keyUpdate ⟨1, ⟨2, 0, 6⟩⟩ (some 2), .popAllBlocks,
    .deposit ⟨0, 1, 90, none⟩ (some 3), .transfer .id ⟨0, 1, 1, 50, 0, .default, none⟩ (some 4),
    .withdraw ⟨1, 1, 10, 0, 50, .default⟩ (some 5), .flushWithNop, .popAllBlocks]

/-- Of what is left of the `50`, the second account cannot withdraw `41`. -/
def overdrawnOps : List Op := servedOps ++ [.withdraw ⟨1, 1, 41, 1, 40, .default⟩ (some 6)]

attribute [local instance] FluidexCommon.sample in
/-- The books are enough to tell. -/
theorem serves_iff_bookAll_servedOps :
    (Node.new Levels.small 2 none 1).Serves servedOps ∧
      ¬(Node.new Levels.small 2 none 1).Serves overdrawnOps := by
  have := FluidexCommon.sample_documented
  have hiff {ops : List Op} (hops : ∀ op ∈ ops, op.Admissible Levels.small)
      (hlen : ops.length < 2 ^ 125) : (Node.new Levels.small 2 none 1).Serves ops ↔
        ∃ B, Books.empty.bookAll (ops.flatMap Op.bookings) = some B :=
    serves_iff_bookAll (by decide) (by decide) hops hlen
  constructor
  · have hsome : (Books.empty.bookAll (servedOps.flatMap Op.bookings)).isSome := by decide +kernel
    exact (hiff (by decide) (by decide)).2 (Option.isSome_iff_exists.1 hsome)
  · intro hserves
    obtain ⟨B, hB⟩ := (hiff (by decide) (by decide)).1 hserves
    have hnone : (Books.empty.bookAll (overdrawnOps.flatMap Op.bookings)).isNone := by
      decide +kernel
    rw [hB] at hnone
    cases hnone

end Rollup
