import Rollup.Loading
import Rollup.Recovering

/-!
# Delivering the messages

What a process has still to receive (`Service.pending`) is what its loader sends. The consumer
is assigned the last offset after every error, so that the messages of the partition are delivered
more than once; the loader sends each of them once, in order (`MessageWriter.sentFrom_of_sessions`).
After a restart it is given the offset of the newest snapshot, and sends what comes after it in the
log (`sent_prefix_remaining`).
-/

namespace Rollup

section Delivering

variable [RustDecimal] [SerdeJson]

/-! ## The partition -/

/-- The message, or none if its type is not known. -/
def BorrowedMessage.read (msg : BorrowedMessage) : Except Panic (Option WrappedMessage) := do
  let msgType ← textOf msg.key
  let msgPayload ← textOf msg.payload
  WrappedMessage.parse msgType msgPayload msg.offset

/-- The messages with a type that is known. -/
def readAll : List BorrowedMessage → Except Panic (List WrappedMessage)
  | [] => pure []
  | msg :: msgs => do
    let message ← msg.read
    let messages ← readAll msgs
    pure (message.toList ++ messages)

/-- The messages of a partition are numbered. -/
structure Partition where
  msgs : List BorrowedMessage
  offset_eq : ∀ (i : ℕ) msg, msgs[i]? = some msg → msg.offset = i

/-- The message received, if there is one. -/
def Received.wrapped : Received → Option WrappedMessage
  | .msg message _ => some message
  | .timeout => none

/-- The messages of the log are those of the partition. -/
def Partition.Logs (P : Partition) (log : List Received) : Prop :=
  readAll P.msgs = .ok (log.filterMap Received.wrapped)

variable {msgs msgs' : List BorrowedMessage} {messages : List WrappedMessage}

theorem BorrowedMessage.offset_of_read {msg : BorrowedMessage} {message : WrappedMessage}
    (h : msg.read = .ok (some message)) : message.offset = some msg.offset := by
  obtain ⟨msgType, -, h⟩ := Exec.bind_eq_ok_iff.1 h
  obtain ⟨msgPayload, -, h⟩ := Exec.bind_eq_ok_iff.1 h
  exact WrappedMessage.offset_of_parse h

theorem readAll_cons {msg : BorrowedMessage} : readAll (msg :: msgs) = .ok messages ↔
    ∃ message rest, msg.read = .ok message ∧ readAll msgs = .ok rest ∧
      messages = message.toList ++ rest := by
  simp only [readAll, Exec.bind_eq_ok_iff, Exec.pure_eq_ok_iff]
  constructor
  · rintro ⟨message, hmessage, rest, hrest, rfl⟩
    exact ⟨message, rest, hmessage, hrest, rfl⟩
  · rintro ⟨message, rest, hmessage, hrest, rfl⟩
    exact ⟨message, hmessage, rest, hrest, rfl⟩

theorem readAll_append : readAll (msgs ++ msgs') = .ok messages ↔ ∃ first rest,
    readAll msgs = .ok first ∧ readAll msgs' = .ok rest ∧ messages = first ++ rest := by
  induction msgs generalizing messages with
  | nil =>
    constructor
    · exact fun h => ⟨[], messages, rfl, h, rfl⟩
    · rintro ⟨first, rest, hfirst, hrest, rfl⟩
      obtain rfl := Except.ok.inj hfirst
      exact hrest
  | cons msg msgs ih =>
    simp only [List.cons_append, readAll_cons, ih]
    constructor
    · rintro ⟨message, _, hmessage, ⟨first, rest, hfirst, hrest, rfl⟩, rfl⟩
      exact ⟨_, rest, ⟨message, first, hmessage, hfirst, rfl⟩, hrest,
        (List.append_assoc _ _ _).symm⟩
    · rintro ⟨_, rest, ⟨message, first, hmessage, hfirst, rfl⟩, hrest, rfl⟩
      exact ⟨message, _, hmessage, ⟨first, rest, hfirst, hrest, rfl⟩, List.append_assoc _ _ _⟩

theorem readAll_take (h : readAll msgs = .ok messages) {n : ℕ} {first : List WrappedMessage}
    (hfirst : readAll (msgs.take n) = .ok first) :
    first <+: messages ∧ (msgs.length ≤ n → first = messages) := by
  have hall := h
  rw [← List.take_append_drop n msgs, readAll_append] at hall
  obtain ⟨first', rest, hfirst', -, rfl⟩ := hall
  obtain rfl := Except.ok.inj (hfirst.symm.trans hfirst')
  refine ⟨List.prefix_append _ _, fun hle => ?_⟩
  rw [List.take_of_length_le hle] at hfirst
  exact Except.ok.inj (hfirst.symm.trans h)

/-- The offsets of what is read of numbered messages. -/
theorem readAll_offsets {k : ℕ} (hk : ∀ (i : ℕ) msg, msgs[i]? = some msg → msg.offset = k + i)
    (h : readAll msgs = .ok messages) :
    (∀ message ∈ messages, ∃ o : ℕ, message.offset = some (o : ℤ) ∧ k ≤ o ∧
      o < k + msgs.length) ∧
    messages.Pairwise fun m m' => ∀ o ∈ m.offset, ∀ o' ∈ m'.offset, o < o' := by
  induction msgs generalizing k messages with
  | nil =>
    obtain rfl := Except.ok.inj h
    exact ⟨List.forall_mem_nil _, .nil⟩
  | cons msg msgs ih =>
    obtain ⟨first, rest, hfirst, hrest, rfl⟩ := readAll_cons.1 h
    have hmsg : msg.offset = k := (hk 0 msg rfl).trans (add_zero _)
    obtain ⟨hoffsets, hpairwise⟩ := ih (k := k + 1) (fun i msg hi => by
      rw [hk (i + 1) msg hi]
      push_cast
      ring) hrest
    have hrest : ∀ message ∈ rest, ∃ o : ℕ, message.offset = some (o : ℤ) ∧ k ≤ o ∧
        o < k + (msgs.length + 1) := fun message hmem => by
      obtain ⟨o, ho, hle, hlt⟩ := hoffsets message hmem
      exact ⟨o, ho, by omega, by omega⟩
    cases first with
    | none => exact ⟨hrest, hpairwise⟩
    | some message =>
      have hoffset : message.offset = some (k : ℤ) := by
        rw [BorrowedMessage.offset_of_read hfirst, hmsg]
      refine ⟨List.forall_mem_cons.2 ⟨⟨k, hoffset, le_rfl, ?_⟩, hrest⟩,
        List.pairwise_cons.2 ⟨fun m hm o ho o' ho' => ?_, hpairwise⟩⟩
      · rw [List.length_cons]
        omega
      · obtain ⟨_, hm', hle, -⟩ := hoffsets m hm
        obtain rfl := Option.some.inj (hoffset.symm.trans ho)
        obtain rfl := Option.some.inj (hm'.symm.trans ho')
        omega

omit [SerdeJson] in
/-- The messages above an offset are those after the other ones. -/
theorem filter_above {first rest : List WrappedMessage} {k : ℤ}
    (hfirst : ∀ message ∈ first, ∃ o, message.offset = some o ∧ o ≤ k)
    (hrest : ∀ message ∈ rest, ∃ o, message.offset = some o ∧ k < o) :
    (first ++ rest).filter (fun message => message.offset.any (k < ·)) = rest := by
  have hnone : first.filter (fun message => message.offset.any (k < ·)) = [] := by
    refine List.filter_eq_nil_iff.2 fun message hmem hany => ?_
    obtain ⟨o, ho, hle⟩ := hfirst message hmem
    obtain ⟨o', ho', hlt⟩ := (Option.any_eq_true _ _).1 hany
    obtain rfl := Option.some.inj (ho.symm.trans ho')
    exact hle.not_gt (of_decide_eq_true hlt)
  have hall : rest.filter (fun message => message.offset.any (k < ·)) = rest := by
    refine List.filter_eq_self.2 fun message hmem => ?_
    obtain ⟨o, ho, hlt⟩ := hrest message hmem
    exact (Option.any_eq_true _ _).2 ⟨o, ho, decide_eq_true hlt⟩
  rw [List.filter_append, hnone, hall, List.nil_append]

namespace Partition

variable {P : Partition} {log : List Received}

omit [RustDecimal] [SerdeJson] in
theorem offset_drop (P : Partition) (k i : ℕ) (msg : BorrowedMessage)
    (h : (P.msgs.drop k)[i]? = some msg) : msg.offset = k + i := by
  rw [List.getElem?_drop] at h
  exact (P.offset_eq _ msg h).trans (Nat.cast_add k i)

/-- The offsets of the log are those of the partition. -/
theorem Logs.increasing (h : P.Logs log) : Increasing log := by
  obtain ⟨hoffsets, hpairwise⟩ := readAll_offsets (k := 0) (P.offset_drop 0) h
  constructor
  · intro received hr
    obtain ⟨hmem, hmsg⟩ := List.mem_filter.1 hr
    cases received with
    | timeout => cases hmsg
    | msg message schedule =>
      obtain ⟨o, ho, -⟩ := hoffsets message (List.mem_filterMap.2 ⟨_, hmem, rfl⟩)
      exact Option.isSome_iff_exists.2 ⟨o, ho⟩
  · rw [messages, List.pairwise_filter]
    refine (List.pairwise_filterMap.1 hpairwise).imp fun {r r'} hrel hmsg hmsg' => ?_
    cases r with
    | timeout => cases hmsg
    | msg message _ =>
      cases r' with
      | timeout => cases hmsg'
      | msg message' _ => exact hrel message rfl message' rfl

/-- What comes after a message of the log is read of the messages after its offset. -/
theorem Logs.readAll_after (h : P.Logs log) {before rest : List Received} {received : Received}
    {k : ℤ} (heq : log = before ++ received :: rest) (hk : received.offset = some k) :
    0 ≤ k ∧ readAll (P.msgs.drop (k + 1).toNat) = .ok (rest.filterMap Received.wrapped) := by
  obtain ⟨hoffsets, hpairwise⟩ := readAll_offsets (k := 0) (P.offset_drop 0) h
  cases received with
  | timeout => cases hk
  | msg message schedule =>
    have hlog : log.filterMap Received.wrapped =
        before.filterMap Received.wrapped ++ message :: rest.filterMap Received.wrapped := by
      rw [heq, List.filterMap_append]
      rfl
    rw [hlog] at hoffsets hpairwise
    obtain ⟨-, hcons, hbefore⟩ := List.pairwise_append.1 hpairwise
    obtain ⟨o, ho, -⟩ := hoffsets message (List.mem_append_right _ List.mem_cons_self)
    obtain rfl : k = o := Option.some.inj (hk.symm.trans ho)
    refine ⟨Int.natCast_nonneg o, ?_⟩
    have hrest : (log.filterMap Received.wrapped).filter
        (fun message => message.offset.any ((o : ℤ) < ·)) = rest.filterMap Received.wrapped := by
      rw [hlog, List.append_cons]
      refine filter_above (fun m hm => ?_) fun m hm => ?_
      · rcases List.mem_append.1 hm with hm | hm
        · obtain ⟨o', ho', -⟩ := hoffsets m (List.mem_append_left _ hm)
          exact ⟨o', ho', (hbefore m hm message List.mem_cons_self o' ho' o ho).le⟩
        · obtain rfl := List.mem_singleton.1 hm
          exact ⟨o, ho, le_rfl⟩
      · obtain ⟨o', ho', -⟩ := hoffsets m (List.mem_append_right _ (List.mem_cons_of_mem _ hm))
        exact ⟨o', ho', (List.pairwise_cons.1 hcons).1 m hm o ho o' ho'⟩
    -- the messages of the partition up to its offset, and those after it
    have hall := h
    rw [Logs, ← List.take_append_drop (o + 1) P.msgs, readAll_append] at hall
    obtain ⟨first, last, hfirst, hlast, happend⟩ := hall
    have htake : ∀ (i : ℕ) msg, (P.msgs.take (o + 1))[i]? = some msg →
        msg.offset = (0 : ℕ) + i := fun i msg hi => by
      rw [List.getElem?_take] at hi
      split at hi
      · exact P.offset_drop 0 i msg hi
      · cases hi
    have hfirst' := (readAll_offsets htake hfirst).1
    have hlast' := (readAll_offsets (k := o + 1) (P.offset_drop (o + 1)) hlast).1
    have hlast_eq : (log.filterMap Received.wrapped).filter
        (fun message => message.offset.any ((o : ℤ) < ·)) = last := by
      rw [happend]
      refine filter_above (fun m hm => ?_) fun m hm => ?_
      · obtain ⟨o', ho', -, hlt⟩ := hfirst' m hm
        have hlen : (P.msgs.take (o + 1)).length ≤ o + 1 := List.length_take_le _ _
        exact ⟨o', ho', by omega⟩
      · obtain ⟨o', ho', hle, -⟩ := hlast' m hm
        exact ⟨o', ho', by omega⟩
    rw [← hrest, hlast_eq]
    exact hlast

end Partition

/-! ## The loader -/

namespace MessageWriter

variable {P : Partition} {w w' : MessageWriter} {first : ℕ}

/-- What the consumer delivers in a session, from the assigned offset on or from the first one. -/
def Fed (P : Partition) (w : MessageWriter) (items : List StreamItem) : Prop :=
  (deliveries items).map Delivery.msg <+: P.msgs.drop (w.assignOffset.getD 0).toNat

/-- The messages from the first one up to the last offset have been sent, each once, in order. -/
def SentFrom (P : Partition) (first : ℕ) (w : MessageWriter) : Prop :=
  ∃ n : ℕ, w.offset + 1 = first + n ∧ readAll ((P.msgs.drop first).take n) = .ok w.sent

theorem SentFrom.new {offset : Option ℤ} (hoffset : ∀ o ∈ offset, 0 ≤ o) :
    (new offset).SentFrom P ((new offset).offset + 1).toNat := by
  refine ⟨0, ?_, rfl⟩
  cases offset with
  | none => rfl
  | some o =>
    have ho := hoffset o rfl
    change o + 1 = ((o + 1).toNat : ℤ) + (0 : ℕ)
    omega

/-- Messages that follow one another, from the one after the last offset at the latest. -/
theorem SentFrom.run (h : w.SentFrom P first) {k : ℕ} (hk : (k : ℤ) ≤ w.offset + 1)
    {ds : List Delivery} (hds : ds.map Delivery.msg <+: P.msgs.drop k)
    (hr : Exec.run deliver w ds = .ok w') : w'.SentFrom P first := by
  induction ds generalizing w k with
  | nil => exact Exec.run_nil.1 hr ▸ h
  | cons d ds ih =>
    obtain ⟨w₁, hd, hrun⟩ := Exec.run_cons.1 hr
    obtain ⟨msgs, hmsgs⟩ := hds
    have hmsg : P.msgs[k]? = some d.msg := by
      rw [← List.head?_drop, ← hmsgs]
      rfl
    have hrest : ds.map Delivery.msg <+: P.msgs.drop (k + 1) :=
      ⟨msgs, by rw [← List.tail_drop, ← hmsgs]; rfl⟩
    have hoffset := P.offset_eq k d.msg hmsg
    rcases deliver_eq_ok_iff.1 hd with ⟨-, hle, rfl⟩ | ⟨hlt, -, message, hyields, rfl⟩
    · -- it has been sent before
      exact ih h (by omega) hrest hrun
    · -- It is the next one, and is sent.
      obtain ⟨n, hn, hsent⟩ := h
      obtain ⟨msgType, payload, htype, hpayload, hparse, -⟩ := hyields
      have hread : d.msg.read = .ok message := by
        rw [BorrowedMessage.read, htype, Exec.ok_bind, hpayload]
        exact hparse
      refine ih ⟨n + 1, ?_, ?_⟩ (by rw [hoffset]; push_cast; rfl) hrest hrun
      · rw [hoffset]
        push_cast
        omega
      · obtain rfl : k = first + n := by omega
        rw [List.take_add_one, List.getElem?_drop, hmsg]
        refine readAll_append.2 ⟨_, _, hsent, readAll_cons.2 ⟨message, [], hread, rfl, rfl⟩, ?_⟩
        rw [List.append_nil]

/-- However often the consumer is assigned the last offset again. -/
theorem sentFrom_of_sessions {offset : Option ℤ} (hoffset : ∀ o ∈ offset, 0 ≤ o)
    (h : Exec.Reachable handleStream (Fed P) (new offset) w) :
    w.SentFrom P ((new offset).offset + 1).toNat := by
  refine h.invariant (.new hoffset) fun w items w' _ hw hfed hst => ?_
  rw [handleStream_eq] at hst
  refine hw.run ?_ hfed hst
  obtain ⟨n, hn, -⟩ := hw
  rw [assignOffset, lastOffset]
  split
  · rw [Option.getD_none]
    omega
  · rw [Option.getD_some]
    omega

end MessageWriter

/-! ## After a restart -/

section Restart

variable [FluidexCommon] [Babyjubjub] [DecimalExt] [UserKey] {lv : Levels} {P : Partition}
  {log : List Received} {nTx persistEveryNBlock : ℕ}

/-- What comes after the newest snapshot is read of the messages from its offset on. -/
theorem Partition.Logs.readAll_remaining (h : P.Logs log) {disk : Disk lv}
    (husable : ∀ snapshot ∈ disk.snapshots, snapshot.Usable log nTx persistEveryNBlock) :
    let offset := disk.newest.map Snapshot.kafkaOffset
    (∀ o ∈ offset, 0 ≤ o) ∧
    readAll (P.msgs.drop ((MessageWriter.new offset).offset + 1).toNat) =
      .ok ((disk.remaining log).filterMap Received.wrapped) := by
  rw [Disk.remaining]
  cases hnewest : disk.newest with
  | none => exact ⟨fun _ ho => (by cases ho), h⟩
  | some snapshot =>
    obtain ⟨before, received, rest, heq, hoffset⟩ :=
      (husable snapshot (List.argmax_mem hnewest)).1.exists_eq
    obtain ⟨hle, hread⟩ := h.readAll_after heq hoffset
    dsimp only
    rw [after_eq h.increasing heq hoffset]
    exact ⟨fun o ho => Option.some.inj ho ▸ hle, hread⟩

/-- However the system has run, and however often the broker delivers the messages after the
    restart: the loader has sent the first of the messages that the process has still to receive,
    each once and in order, and all of them once it has recorded the last one. -/
theorem sent_prefix_remaining (hlog : P.Logs log) (hpos : 0 < nTx) {s : Service lv}
    (hs : Exec.Reachable (Service.step log nTx persistEveryNBlock)
      (fun s event => event.Recovers s) (Service.init lv) s) {w : MessageWriter}
    (hw : Exec.Reachable MessageWriter.handleStream (MessageWriter.Fed P)
      (.new (s.system.disk.newest.map Snapshot.kafkaOffset)) w) :
    w.sent <+: (s.system.disk.remaining log).filterMap Received.wrapped ∧
      (w.offset + 1 = P.msgs.length →
        w.sent = (s.system.disk.remaining log).filterMap Received.wrapped) := by
  have hr : s.Recovered log nTx persistEveryNBlock :=
    hs.invariant (.init log nTx persistEveryNBlock) fun _ _ _ _ hs hevent hst =>
      hs.step hlog.increasing hpos hevent hst
  obtain ⟨hoffset, hread⟩ := hlog.readAll_remaining hr.usable
  obtain ⟨n, hn, hsent⟩ := MessageWriter.sentFrom_of_sessions hoffset hw
  obtain ⟨hsub, hall⟩ := readAll_take hread hsent
  refine ⟨hsub, fun hlast => hall ?_⟩
  rw [List.length_drop]
  omega

end Restart

deriving instance DecidableEq for BorrowedMessage

instance (P : Partition) (w : MessageWriter)
    (items : List MessageWriter.StreamItem) : Decidable (w.Fed P items) :=
  inferInstanceAs (Decidable (_ <+: _))

end Delivering

/-! ## Three users -/

section Example

/-- Only the messages on users are read; the payload is as long as the number of the user. -/
@[reducible] def SerdeJson.users [RustDecimal] : SerdeJson where
  depositMessage _ := none
  orderMessage _ := none
  tradeMessage _ := none
  userMessage payload :=
    some ⟨payload.length, "0x1", "0x" ++ String.ofList (List.replicate 32 '5')⟩
  transferMessage _ := none
  withdrawMessage _ := none

attribute [local instance] FluidexCommon.sample RustDecimal.sample Babyjubjub.sample
  DecimalExt.sample UserKey.sample SerdeJson.users

/-- A partition of messages on new users, with these payloads. -/
def Partition.ofUsers (payloads : List String) : Partition where
  msgs := payloads.zipIdx.map fun payload => {
    key := some "registeruser".toUTF8.data.toList
    payload := some payload.1.toUTF8.data.toList
    offset := payload.2 }
  offset_eq i msg h := by
    rw [List.getElem?_map, List.getElem?_zipIdx, Option.map_map, Option.map_eq_some_iff] at h
    obtain ⟨payload, -, rfl⟩ := h
    simp

/-- Three messages, with three different payloads. -/
def usersPartition : Partition := .ofUsers ["", "1", "22"]

/-- The process crashes after the first block. -/
def firstBlockEvents : List ServiceEvent :=
  [.system (.start .id), .receive none, .system .forge, .system .drain, .system .crash]

/-- The second session begins with the last message of the first one. -/
def twoSessions : List (List MessageWriter.StreamItem) :=
  [(usersPartition.msgs.take 2).map (fun msg => .message ⟨msg, true⟩) ++ [.error],
    (usersPartition.msgs.drop 1).map fun msg => .message ⟨msg, true⟩]

/-- From the snapshot of the first user, the two other ones are sent. -/
theorem sent_prefix_remaining_usersPartition : ∃ log s w,
    usersPartition.Logs log ∧
    Exec.run (Service.step log 1 1) (Service.init Levels.small) firstBlockEvents = .ok s ∧
    Exec.run MessageWriter.handleStream (.new (s.system.disk.newest.map Snapshot.kafkaOffset))
      twoSessions = .ok w ∧
    w.sent = (s.system.disk.remaining log).filterMap Received.wrapped ∧
    w.sent.map WrappedMessage.offset = [some 1, some 2] := by
  obtain ⟨⟨messages, s, w⟩, hrun⟩ := Exec.exists_eq_ok (do
    let messages ← readAll usersPartition.msgs
    let s ← Exec.run (Exec.guarded (Service.step (messages.map (.msg · .id)) 1 1)
      (.explicit "other") fun s event => event.Recovers s) (Service.init Levels.small)
      firstBlockEvents
    let w ← Exec.run (Exec.guarded MessageWriter.handleStream (.explicit "other")
      (MessageWriter.Fed usersPartition)) (.new (s.system.disk.newest.map Snapshot.kafkaOffset))
      twoSessions
    assert (w.offset + 1 = usersPartition.msgs.length ∧
      w.sent.map WrappedMessage.offset = [some 1, some 2]) "offsets"
    pure (messages, s, w)) (by decide +kernel)
  simp only [Exec.bind_eq_ok_iff, Exec.assert_eq_ok_iff, Exec.pure_eq_ok_iff,
    Prod.mk.injEq] at hrun
  obtain ⟨messages, hread, s, hs, w, hw, _, ⟨hlast, hoffsets⟩, rfl, rfl, rfl⟩ := hrun
  have hlog : usersPartition.Logs (messages.map (.msg · .id)) := by
    rw [Partition.Logs, hread, List.filterMap_map]
    exact congrArg Except.ok (List.filterMap_some).symm
  obtain ⟨hreach, hrun⟩ := Exec.Reachable.init.of_guarded hs
  obtain ⟨hreach', hrun'⟩ := Exec.Reachable.init.of_guarded hw
  exact ⟨_, s, w, hlog, hrun, hrun',
    (sent_prefix_remaining hlog Nat.one_pos hreach hreach').2 hlast, hoffsets⟩

end Example

end Rollup
