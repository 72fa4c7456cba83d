import Rollup.Handling
import Rollup.Loader

/-!
# Loading the messages

The offsets that the loader records should be consecutive, so that no message is skipped or
handed on twice (`MessageWriter.NoneSkipped`). A delivery is ignored if its offset has been
recorded, and recorded if it is the next one; otherwise it is a panic, unless the last offset
is `0`. That was the offset of a loader that had recorded nothing, before it was `-1`, and it is
the offset of the first message: the messages after it may be skipped
(`MessageWriter.not_noneSkipped_second`).

So none is skipped if and only if the first message is not followed by a later one than the
second (`MessageWriter.noneSkipped_iff`).
-/

namespace Rollup

section Loading

variable [RustDecimal] [SerdeJson]

/-! ## One delivery -/

omit [RustDecimal] [SerdeJson] in
/-- The key and the payload are there, in UTF-8. -/
def BorrowedMessage.IsText (msg : BorrowedMessage) : Prop :=
  ∃ msgType payload, textOf msg.key = .ok msgType ∧ textOf msg.payload = .ok payload

/-- The delivery holds this message, or none if its type is not known, and it can be sent. -/
def Delivery.Yields (d : Delivery) (message : Option WrappedMessage) : Prop :=
  ∃ msgType payload, textOf d.msg.key = .ok msgType ∧ textOf d.msg.payload = .ok payload ∧
    WrappedMessage.parse msgType payload d.msg.offset = .ok message ∧
    (message.isSome → d.connected = true)

theorem WrappedMessage.offset_of_parse {msgType payload : String} {offset : ℤ}
    {message : WrappedMessage} (h : WrappedMessage.parse msgType payload offset = .ok (some message)) :
    message.offset = some offset := by
  unfold WrappedMessage.parse at h
  split at h <;>
    simp only [Exec.bind_eq_ok_iff, Exec.pure_eq_ok_iff, Option.some.injEq, reduceCtorEq] at h
  all_goals
    obtain ⟨data, -, rfl⟩ := h
    rfl

namespace MessageWriter

variable {w w' : MessageWriter} {d : Delivery} {ds : List Delivery}

omit [SerdeJson] in
theorem trySend_eq_ok_iff {message : Option WrappedMessage} {connected : Bool} :
    w.trySend connected message = .ok w' ↔
      (message.isSome → connected = true) ∧ w' = { w with sent := w.sent ++ message.toList } := by
  cases message with
  | none => simp [trySend, eq_comm (b := w')]
  | some message =>
    cases connected with
    | true => simp [trySend, eq_comm (b := w')]
    | false => simp [trySend]

/-- A delivery is ignored, or recorded. -/
theorem deliver_eq_ok_iff : w.deliver d = .ok w' ↔
    (d.msg.IsText ∧ d.msg.offset ≤ w.offset ∧ w' = w) ∨
    (w.offset < d.msg.offset ∧ (w.offset = 0 ∨ d.msg.offset = w.offset + 1) ∧
      ∃ message, d.Yields message ∧ w' = ⟨w.sent ++ message.toList, d.msg.offset⟩) := by
  simp only [deliver, onMessage, Exec.bind_eq_ok_iff, BorrowedMessage.IsText, Delivery.Yields]
  -- recorded already, following the last offset, or after a gap
  by_cases hle : d.msg.offset ≤ w.offset
  · simp only [if_pos hle, Exec.pure_eq_ok_iff]
    constructor
    · rintro ⟨t, ht, p, hp, rfl⟩
      exact .inl ⟨⟨t, p, ht, hp⟩, hle, rfl⟩
    · rintro (⟨⟨t, p, ht, hp⟩, -, rfl⟩ | ⟨hlt, -⟩)
      · exact ⟨t, ht, p, hp, rfl⟩
      · exact absurd hle (not_le.2 hlt)
  · have hnext : (w.offset ≠ 0 ∧ d.msg.offset ≠ w.offset + 1) ↔
        ¬(w.offset = 0 ∨ d.msg.offset = w.offset + 1) := not_or.symm
    simp only [if_neg hle, hnext, ite_not]
    by_cases hcont : w.offset = 0 ∨ d.msg.offset = w.offset + 1
    · simp only [if_pos hcont, Exec.bind_eq_ok_iff, trySend_eq_ok_iff]
      constructor
      · rintro ⟨t, ht, p, hp, message, hmessage, hsome, rfl⟩
        exact .inr ⟨not_le.1 hle, hcont, message, ⟨t, p, ht, hp, hmessage, hsome⟩, rfl⟩
      · rintro (⟨-, hle', -⟩ | ⟨-, -, message, ⟨t, p, ht, hp, hmessage, hsome⟩, rfl⟩)
        · exact absurd hle' hle
        · exact ⟨t, ht, p, hp, message, hmessage, hsome, rfl⟩
    · simp only [if_neg hcont]
      constructor
      · rintro ⟨t, ht, p, hp, hr⟩
        cases hr
      · rintro (⟨-, hle', -⟩ | ⟨-, hcont', -⟩)
        · exact absurd hle' hle
        · exact absurd hcont' hcont

/-! ## All of them -/

/-- The delivery does what it should: if it is to be ignored, its texts can be read, and if
    the last offset is that of the first message, it does not hold a later one than the second. -/
structure Safe (w : MessageWriter) (d : Delivery) : Prop where
  isText : d.msg.offset ≤ w.offset → d.msg.IsText
  second : w.offset = 0 → 1 < d.msg.offset → ∀ message, ¬d.Yields message

/-- No message is skipped or handed on twice: the offsets that are recorded are consecutive,
    and those of the messages sent are among them, in order; a gap is a panic, and what is
    delivered again is ignored. -/
structure NoneSkipped (w : MessageWriter) (ds : List Delivery) : Prop where
  consecutive : ∀ (i : ℕ) (o : ℤ), (w.recorded ds)[i]? = some o → o = w.offset + 1 + i
  sent : ∀ w', Exec.run deliver w ds = .ok w' → ∃ messages, w'.sent = w.sent ++ messages ∧
    (messages.map WrappedMessage.offset).Sublist ((w.recorded ds).map some)
  gap : ∀ k w' d, Exec.run deliver w (ds.take k) = .ok w' → ds[k]? = some d →
    w'.offset + 1 < d.msg.offset → ∃ panic, w'.deliver d = .error panic
  again : ∀ k w' d, Exec.run deliver w (ds.take k) = .ok w' → ds[k]? = some d →
    d.msg.offset ≤ w'.offset → w'.deliver d = .ok w'

/-- What is recorded of a delivery. -/
theorem recorded_cons (h : w.deliver d = .ok w') : w.recorded (d :: ds) =
    if w'.offset = w.offset then w'.recorded ds else w'.offset :: w'.recorded ds := by
  rw [recorded, h]

theorem recorded_of_lt (h : w.deliver d = .ok w') (hlt : w.offset < w'.offset) :
    w.recorded (d :: ds) = w'.offset :: w'.recorded ds := by
  rw [recorded_cons h, if_neg hlt.ne']

/-- The offsets of the messages sent are recorded. -/
theorem sent_of_run (h : Exec.run deliver w ds = .ok w') : ∃ messages,
    w'.sent = w.sent ++ messages ∧
      (messages.map WrappedMessage.offset).Sublist ((w.recorded ds).map some) := by
  induction ds generalizing w with
  | nil =>
    obtain rfl := Exec.run_nil.1 h
    exact ⟨[], (List.append_nil _).symm, .refl _⟩
  | cons d ds ih =>
    obtain ⟨w₁, hd, hds⟩ := Exec.run_cons.1 h
    obtain ⟨messages, hsent, hsub⟩ := ih hds
    rcases deliver_eq_ok_iff.1 hd with ⟨-, -, rfl⟩ | ⟨hlt, -, message, hmessage, rfl⟩
    · rw [recorded_cons hd, if_pos rfl]
      exact ⟨messages, hsent, hsub⟩
    · rw [recorded_of_lt hd hlt]
      refine ⟨message.toList ++ messages, by rw [hsent, List.append_assoc], ?_⟩
      cases message with
      | none =>
        -- a message of an unknown type is recorded, but not sent
        exact hsub.cons _
      | some message =>
        obtain ⟨_, _, -, -, hparse, -⟩ := hmessage
        rw [Option.toList_some, List.singleton_append, List.map_cons, List.map_cons,
          WrappedMessage.offset_of_parse hparse]
        exact hsub.cons_cons _

/-- A safe delivery that is recorded is the next one. -/
theorem Safe.next (h : w.Safe d) (hd : w.deliver d = .ok w') :
    (w' = w ∧ d.msg.offset ≤ w.offset) ∨ (w'.offset = w.offset + 1 ∧ d.msg.offset = w'.offset) := by
  rcases deliver_eq_ok_iff.1 hd with ⟨-, hle, rfl⟩ | ⟨hlt, hcont, message, hmessage, rfl⟩
  · exact .inl ⟨rfl, hle⟩
  · refine .inr ⟨?_, rfl⟩
    rcases hcont with hzero | hnext
    · -- only the second message may follow the first one
      have hsecond : ¬1 < d.msg.offset := fun hgt => h.second hzero hgt message hmessage
      show d.msg.offset = w.offset + 1
      omega
    · exact hnext

theorem recorded_consecutive (h : Exec.Along deliver Safe w ds) {i : ℕ} {o : ℤ}
    (ho : (w.recorded ds)[i]? = some o) : o = w.offset + 1 + i := by
  induction ds generalizing w i with
  | nil => simp [recorded] at ho
  | cons d ds ih =>
    obtain ⟨hsafe, hrest⟩ := h
    cases hd : w.deliver d with
    | error panic => simp [recorded, hd] at ho
    | ok w₁ =>
      rcases hsafe.next hd with ⟨rfl, -⟩ | ⟨hnext, -⟩
      · rw [recorded_cons hd, if_pos rfl] at ho
        exact ih (hrest _ hd) ho
      · rw [recorded_of_lt hd (by omega)] at ho
        cases i with
        | zero =>
          obtain rfl := Option.some.inj ho
          rw [hnext, Nat.cast_zero, add_zero]
        | succ i =>
          rw [ih (hrest _ hd) ho, hnext]
          push_cast
          ring

theorem noneSkipped_of_along (h : Exec.Along deliver Safe w ds) : w.NoneSkipped ds where
  consecutive _ _ ho := recorded_consecutive h ho
  sent _ hw := sent_of_run hw
  gap := by
    intro k w' d hw hd hgt
    cases hr : w'.deliver d with
    | error panic => exact ⟨panic, rfl⟩
    | ok w₁ =>
      rcases (Exec.along_iff.1 h k w' d hw hd).next hr with ⟨-, hle⟩ | ⟨hnext, heq⟩
      · omega
      · omega
  again := by
    intro k w' d hw hd hle
    exact deliver_eq_ok_iff.2 (.inl ⟨(Exec.along_iff.1 h k w' d hw hd).isText hle, hle, rfl⟩)

/-- No message is skipped if and only if every delivery is safe. -/
theorem noneSkipped_iff (offset : Option ℤ) (ds : List Delivery) :
    (new offset).NoneSkipped ds ↔ ∀ k w d, Exec.run deliver (new offset) (ds.take k) = .ok w →
      ds[k]? = some d → w.Safe d := by
  constructor
  · intro h k w d hw hd
    refine ⟨fun hle => ?_, fun hzero hgt message hmessage => ?_⟩
    · rcases deliver_eq_ok_iff.1 (h.again k w d hw hd hle) with ⟨htext, -⟩ | ⟨hlt, -⟩
      · exact htext
      · exact absurd hle (not_le.2 hlt)
    · obtain ⟨panic, hpanic⟩ := h.gap k w d hw hd (by omega)
      have hok := deliver_eq_ok_iff.2 (.inr ⟨by omega, .inl hzero, message, hmessage, rfl⟩)
      cases hpanic.symm.trans hok
  · exact fun h => noneSkipped_of_along (Exec.along_iff.2 h)

/-! ## Sessions of the consumer -/

/-- What the consumer delivers until its first error. -/
def deliveries : List StreamItem → List Delivery
  | [] => []
  | .message d :: items => d :: deliveries items
  | .noMessageReceived :: items | .partitionEof :: items => deliveries items
  | .error :: _ => []

theorem handleStream_eq (w : MessageWriter) (items : List StreamItem) :
    w.handleStream items = Exec.run deliver w (deliveries items) := by
  induction items generalizing w with
  | nil => rfl
  | cons item items ih =>
    cases item with
    | message d => exact congrArg (w.deliver d >>= ·) (funext fun w' => ih w')
    | noMessageReceived | partitionEof => exact ih w
    | error => rfl

end MessageWriter

end Loading

/-! ## A gap after the first message -/

section Example

attribute [local instance] RustDecimal.sample SerdeJson.sample

/-- A message on a new user, at this offset. -/
def userDelivery (offset : ℤ) : Delivery where
  msg := {
    key := some "registeruser".toUTF8.data.toList
    payload := some "{}".toUTF8.data.toList
    offset := offset }
  connected := true

namespace MessageWriter

/-- The message after the first one is skipped; after any other one, it would not be. -/
theorem not_noneSkipped_second :
    ((new none).recorded [userDelivery 0, userDelivery 2] = [0, 2] ∧
      ∃ w, Exec.run deliver (new none) [userDelivery 0, userDelivery 2] = .ok w ∧
        w.sent.map WrappedMessage.offset = [some 0, some 2]) ∧
    ¬(new none).NoneSkipped [userDelivery 0, userDelivery 2] := by
  have hrecorded : (new none).recorded [userDelivery 0, userDelivery 2] = [0, 2] := by
    decide +kernel
  obtain ⟨w, hw⟩ := Exec.exists_eq_ok (do
    let w ← Exec.run deliver (new none) [userDelivery 0, userDelivery 2]
    assert (w.sent.map WrappedMessage.offset = [some 0, some 2]) "offsets"
    pure w) (by decide +kernel)
  simp only [Exec.bind_eq_ok_iff, Exec.assert_eq_ok_iff, Exec.pure_eq_ok_iff] at hw
  obtain ⟨w, hrun, _, hsent, rfl⟩ := hw
  refine ⟨⟨hrecorded, w, hrun, hsent⟩, fun h => ?_⟩
  have hnext := h.consecutive 1 2 (by rw [hrecorded]; rfl)
  cases hnext

end MessageWriter

end Example

end Rollup
