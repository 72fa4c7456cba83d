import Rollup.Messages

/-!
# The loader of the messages

`msg/msg_loader.rs`: the messages of the exchange come from one partition of a broker, at
increasing offsets. After every error the consumer is assigned the last offset again, so that
messages are delivered more than once: the loader ignores those it has already recorded, and
panics if some are missing (`MessageWriter.onMessage`).

* `SerdeJson` is what reads the payloads.
* The texts are bytes, as the broker has them.
* The signal that stops the consumer is left out.
-/

namespace Rollup

/-! ## What is delivered -/

/-- `serde_json::from_str`, for the messages. -/
class SerdeJson [RustDecimal] where
  depositMessage : String → Option DepositMessage
  orderMessage : String → Option OrderMessage
  tradeMessage : String → Option TradeMessage
  userMessage : String → Option UserMessage
  transferMessage : String → Option TransferMessage
  withdrawMessage : String → Option WithdrawMessage

/-- A message of the broker; its offset is an `i64`. -/
structure BorrowedMessage where
  key : Option (List UInt8)
  payload : Option (List UInt8)
  offset : ℤ

/-- A message that is delivered, and whether the processor is there to receive what it holds:
    the channel between them is not bounded. -/
structure Delivery where
  msg : BorrowedMessage
  connected : Bool

/-- `std::str::from_utf8` of what is there. -/
def textOf (bytes : Option (List UInt8)) : Except Panic String := do
  let bytes ← unwrap bytes
  unwrap (String.fromUTF8? ⟨bytes.toArray⟩)

/-- Only the messages on users are read, and they hold nothing. -/
@[reducible] def SerdeJson.sample [RustDecimal] : SerdeJson where
  depositMessage _ := none
  orderMessage _ := none
  tradeMessage _ := none
  userMessage payload := some ⟨payload.length, payload, payload⟩
  transferMessage _ := none
  withdrawMessage _ := none

variable [RustDecimal] [SerdeJson]

/-- The message of a payload; there is none if the type is not known. -/
def WrappedMessage.parse (msgType payload : String) (offset : ℤ) :
    Except Panic (Option WrappedMessage) :=
  match msgType with
  | "deposits" => do
    let data ← unwrap (SerdeJson.depositMessage payload)
    pure (some (.deposit ⟨data, some offset⟩))
  | "orders" => do
    let data ← unwrap (SerdeJson.orderMessage payload)
    pure (some (.order ⟨data, some offset⟩))
  | "trades" => do
    let data ← unwrap (SerdeJson.tradeMessage payload)
    pure (some (.trade ⟨data, some offset⟩))
  | "registeruser" => do
    let data ← unwrap (SerdeJson.userMessage payload)
    pure (some (.user ⟨data, some offset⟩))
  | "transfers" => do
    let data ← unwrap (SerdeJson.transferMessage payload)
    pure (some (.transfer ⟨data, some offset⟩))
  | "withdraws" => do
    let data ← unwrap (SerdeJson.withdrawMessage payload)
    pure (some (.withdraw ⟨data, some offset⟩))
  | _ => pure none

/-! ## The writer -/

/-- The writer between the consumer and the processor, with the offset it has reached. -/
structure MessageWriter where
  /-- The messages sent to the processor. -/
  sent : List WrappedMessage
  offset : ℤ

namespace MessageWriter

/-- The writer of a loader started from a restored offset, or from none. -/
def new (offset : Option ℤ) : MessageWriter := ⟨[], offset.getD (-1)⟩

/-- The offset of the last message that was taken. -/
def lastOffset (w : MessageWriter) : ℤ := w.offset

/-- `sender.try_send(message).unwrap()`, if there is a message. -/
def trySend (w : MessageWriter) (connected : Bool) :
    Option WrappedMessage → Except Panic MessageWriter
  | some message =>
    if connected then pure { w with sent := w.sent ++ [message] } else .error .unwrap
  | none => pure w

/-- The offset that follows the last one is an `i64` whenever it is compared with another. -/
def onMessage (w : MessageWriter) (msg : BorrowedMessage) (connected : Bool) :
    Except Panic MessageWriter := do
  let msgType ← textOf msg.key
  let msgPayload ← textOf msg.payload
  let offset := msg.offset
  let lastOffset := w.offset
  -- a message that is delivered again
  if offset ≤ lastOffset then pure w
  else if lastOffset ≠ 0 ∧ offset ≠ lastOffset + 1 then
    .error (.explicit s!"offset not continuous {lastOffset} {offset}")
  else do
    let w := { w with offset := offset }
    let message ← WrappedMessage.parse msgType msgPayload offset
    w.trySend connected message

/-- What the consumer hands over, with the state of the channel at that moment. -/
def deliver (w : MessageWriter) (d : Delivery) : Except Panic MessageWriter :=
  w.onMessage d.msg d.connected

/-! ## The consumer -/

/-- What the stream of a consumer yields. -/
inductive StreamItem where
  | message (d : Delivery)
  | noMessageReceived
  | partitionEof
  | error

/-- The stream is read up to its first error. -/
def handleStream (w : MessageWriter) : List StreamItem → Except Panic MessageWriter
  | [] => pure w
  | .message d :: items => do
    let w ← w.deliver d
    w.handleStream items
  | .noMessageReceived :: items | .partitionEof :: items => w.handleStream items
  | .error :: _ => pure w

/-- Where the consumer is assigned to: the beginning, or the last offset. -/
def assignOffset (w : MessageWriter) : Option ℤ :=
  if w.lastOffset < 0 then none else some w.lastOffset

/-- The offsets that are recorded, up to the first panic. -/
def recorded : MessageWriter → List Delivery → List ℤ
  | _, [] => []
  | w, d :: ds =>
    match w.deliver d with
    | .ok w' => if w'.offset = w.offset then recorded w' ds else w'.offset :: recorded w' ds
    | .error _ => []

end MessageWriter

end Rollup
