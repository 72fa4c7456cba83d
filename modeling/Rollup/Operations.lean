import Rollup.Keys
import Rollup.Messages

/-!
# The operations of a processor

The processor only calls some of the operations of the manager, and never gives a key with a
deposit or a transfer (`Op.OfProcessor`): what it does to a message is one of them, or nothing
(`handleMsg_step`), so that a run of the loop is a run of these operations
(`Node.run_of_processMsg`). An account then keeps its key once it has one
(`Node.keyOf_of_run`).
-/

namespace Rollup

section Operations

variable [FluidexCommon] {lv : Levels} {n n' : Node lv} {a : ℕ}

/-- The operations that the processor calls. -/
def Op.OfProcessor : Op → Prop
  | .deposit tx _ => tx.l2key = none
  | .transfer _ tx _ => tx.l2key = none
  | .keyUpdate _ _ | .withdraw _ _ | .fullSpotTrade _ _ _ | .cancelOrder _ _ | .flushWithNop
  | .popAllBlocks => True
  | _ => False

/-! ## Messages -/

theorem Node.step_of_stepUnwrap {op : Op}
    (hn : n.step op = n.state.apply op >>= fun r => pure (n.advance r.1 r.2))
    (hr : n.stepUnwrap op = .ok n') : n.step op = .ok n' := by
  obtain ⟨⟨result, s⟩, happly, hr⟩ := Exec.bind_eq_ok_iff.1 hr
  obtain ⟨rawTx, hraw, hr⟩ := Exec.bind_eq_ok_iff.1 hr
  obtain rfl : result = some rawTx := Exec.unwrap_eq_ok_iff.1 hraw
  rw [hn, happly]
  exact hr

theorem Node.exists_op {op : Op} (hst : n.step op = .ok n') (hop : op.OfProcessor) :
    ∃ op : Op, op.OfProcessor ∧ n.step op = .ok n' := ⟨op, hop, hst⟩

variable [RustDecimal] [Babyjubjub] [DecimalExt] [UserKey]

/-- A message that is handled is an operation of the manager, or it changes nothing. -/
theorem Processor.handleMsg_step (p : Processor) {schedule : Shuffle Task} {message : WrappedMessage}
    (hr : p.handleMsg n schedule message = .ok n') :
    n' = n ∨ ∃ op, op.OfProcessor ∧ n.step op = .ok n' := by
  -- whatever is checked before, only the operation that is called in the end matters
  cases message with
  | user message =>
    obtain ⟨-, hr⟩ := Exec.assert_bind_eq_ok_iff.1 hr
    iterate 4 obtain ⟨_, -, hr⟩ := Exec.bind_eq_ok_iff.1 hr
    exact .inr (Node.exists_op (Node.step_of_stepUnwrap rfl hr) trivial)
  | deposit message =>
    obtain ⟨-, hr⟩ := Exec.assert_bind_eq_ok_iff.1 hr
    iterate 2 obtain ⟨_, -, hr⟩ := Exec.bind_eq_ok_iff.1 hr
    obtain ⟨-, hr⟩ := Exec.assert_bind_eq_ok_iff.1 hr
    iterate 3 obtain ⟨_, -, hr⟩ := Exec.bind_eq_ok_iff.1 hr
    obtain ⟨-, hr⟩ := Exec.assert_bind_eq_ok_iff.1 hr
    obtain ⟨amount, -, hr⟩ := Exec.bind_eq_ok_iff.1 hr
    exact .inr (Node.exists_op (Node.step_of_stepUnwrap rfl hr) rfl)
  | withdraw message =>
    obtain ⟨-, hr⟩ := Exec.assert_bind_eq_ok_iff.1 hr
    iterate 2 obtain ⟨_, -, hr⟩ := Exec.bind_eq_ok_iff.1 hr
    obtain ⟨-, hr⟩ := Exec.assert_bind_eq_ok_iff.1 hr
    iterate 3 obtain ⟨_, -, hr⟩ := Exec.bind_eq_ok_iff.1 hr
    obtain ⟨-, hr⟩ := Exec.assert_bind_eq_ok_iff.1 hr
    iterate 2 obtain ⟨_, -, hr⟩ := Exec.bind_eq_ok_iff.1 hr
    dsimp only at hr
    split at hr
    · obtain ⟨_, -, hr⟩ := Exec.bind_eq_ok_iff.1 hr
      exact .inr (Node.exists_op hr trivial)
    · exact .inr (Node.exists_op hr trivial)
  | transfer message =>
    obtain ⟨-, hr⟩ := Exec.assert_bind_eq_ok_iff.1 hr
    iterate 4 obtain ⟨_, -, hr⟩ := Exec.bind_eq_ok_iff.1 hr
    obtain ⟨-, hr⟩ := Exec.assert_bind_eq_ok_iff.1 hr
    iterate 3 obtain ⟨_, -, hr⟩ := Exec.bind_eq_ok_iff.1 hr
    exact .inr (Node.exists_op hr rfl)
  | trade message =>
    iterate 4 obtain ⟨_, -, hr⟩ := Exec.bind_eq_ok_iff.1 hr
    obtain ⟨n₁, hst, hr⟩ := Exec.bind_eq_ok_iff.1 hr
    obtain ⟨_, -, hr⟩ := Exec.bind_eq_ok_iff.1 hr
    obtain rfl := Except.ok.inj hr
    exact .inr (Node.exists_op hst trivial)
  | order message =>
    unfold handleMsg handleOrderMsg at hr
    dsimp only at hr
    split at hr
    · obtain ⟨-, hr⟩ := Exec.assert_bind_eq_ok_iff.1 hr
      split at hr
      · obtain ⟨-, hr⟩ := Exec.assert_bind_eq_ok_iff.1 hr
        exact .inl (Except.ok.inj hr).symm
      · obtain ⟨-, hr⟩ := Exec.assert_bind_eq_ok_iff.1 hr
        exact .inr (Node.exists_op hr trivial)
    all_goals exact .inl (Except.ok.inj hr).symm

namespace Node

/-! ## Runs of the loop -/

/-- The message is handled, or the buffer filled. -/
theorem receive_step {received : Received} (hr : n.receive received = .ok n') :
    n' = n ∨ ∃ op, op.OfProcessor ∧ n.step op = .ok n' := by
  cases received with
  | msg message schedule => exact Processor.default.handleMsg_step hr
  | timeout =>
    rw [receive] at hr
    split at hr
    · exact .inr (Node.exists_op hr trivial)
    · exact .inl (Except.ok.inj hr).symm

/-- An iteration of the loop is a run of the operations of the processor. -/
theorem run_of_processMsg {received : Received} (hr : n.processMsg received = .ok n') :
    ∃ ops, (∀ op ∈ ops, op.OfProcessor) ∧ Exec.run step n ops = .ok n' := by
  obtain ⟨n₁, hrec, hpop⟩ := Exec.bind_eq_ok_iff.1 hr
  -- the message or the end of the wait, then the blocks
  rcases receive_step hrec with rfl | ⟨op, hop, hst⟩
  · exact ⟨[.popAllBlocks], List.forall_mem_singleton.2 trivial, Exec.run_cons.2 ⟨_, hpop, rfl⟩⟩
  · exact ⟨[op, .popAllBlocks], List.forall_mem_cons.2 ⟨hop, List.forall_mem_singleton.2 trivial⟩,
      Exec.run_cons.2 ⟨_, hst, Exec.run_cons.2 ⟨_, hpop, rfl⟩⟩⟩

theorem run_of_run_processMsg {received : List Received}
    (hrun : Exec.run processMsg n received = .ok n') :
    ∃ ops, (∀ op ∈ ops, op.OfProcessor) ∧ Exec.run step n ops = .ok n' := by
  induction received generalizing n with
  | nil => exact ⟨[], by simp, hrun⟩
  | cons r rs ih =>
    obtain ⟨n₁, hr, hrs⟩ := Exec.run_cons.1 hrun
    obtain ⟨ops, hops, hfirst⟩ := run_of_processMsg hr
    obtain ⟨ops', hops', hrest⟩ := ih hrs
    exact ⟨ops ++ ops', fun op hop => (List.mem_append.1 hop).elim (hops op) (hops' op),
      Exec.run_append.2 ⟨n₁, hfirst, hrest⟩⟩

omit [RustDecimal] [Babyjubjub] [DecimalExt] [UserKey]

theorem exists_shows_run {ops : List Op} (h : ∃ L, Shows n.state L)
    (hrun : Exec.run step n ops = .ok n') : ∃ L, Shows n'.state L := by
  induction ops generalizing n with
  | nil => exact Exec.run_nil.1 hrun ▸ h
  | cons op ops ih =>
    obtain ⟨n₁, hst, hops⟩ := Exec.run_cons.1 hrun
    exact ih (exists_shows_step h hst) hops

/-- The processor does not change the key of an account. -/
theorem keyOf_of_run {ops : List Op} (h : ∃ L, Shows n.state L)
    (hops : ∀ op ∈ ops, op.OfProcessor) (hrun : Exec.run step n ops = .ok n')
    (ha : n.state.hasAccount a) : n'.state.keyOf a = n.state.keyOf a := by
  induction ops generalizing n with
  | nil => rw [Exec.run_nil.1 hrun]
  | cons op ops ih =>
    obtain ⟨hop, hops⟩ := List.forall_mem_cons.1 hops
    obtain ⟨n₁, hst, hrest⟩ := Exec.run_cons.1 hrun
    obtain ⟨L, hL⟩ := h
    obtain ⟨raw, hr⟩ := step_state hst
    -- only a transfer with a key could give the account another one
    have hkeeps : op.KeepsKey n.state a := by
      cases op with
      | setAccountL2Addr _ _ _ => exact hop.elim
      | transfer _ tx _ =>
        intro _ l2key hkey
        rw [show tx.l2key = none from hop] at hkey
        cases hkey
      | _ => trivial
    have hkey := (apply_keyOf_iff hL ha hr).2 hkeeps
    exact (ih (exists_shows_step ⟨L, hL⟩ hst) hops hrest (.of_keyOf hkey ha)).trans hkey

end Node

end Operations

end Rollup
