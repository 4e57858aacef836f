/-
  Handlers, their context and their errors, and what running one does.

  A handler is user code: the operation `handle` hands it the message and its context, and its
  reply says what it published and how it ended. A transaction is a handle of the store's;
  dropping one rolls it back, which is an operation of its own here.
-/
import SisaMessaging.Core.Store
import SisaMessaging.Core.Transport
import SisaMessaging.Lib.Prog

namespace SisaMessaging.Runtime

open SisaMessaging.Core SisaMessaging.Lib

/-! ## Errors -/

/-- Why a handler failed: an error's type and message. -/
structure HandlerError where
  errorType : String
  message : String
  deriving DecidableEq

/-- Why a message couldn't be encoded or decoded. -/
inductive CodecError where
  | encode (messageType contentType reason : String)
  | decode (messageType contentType reason : String)
  deriving DecidableEq

def CodecError.toText : CodecError → String
  | encode messageType contentType reason =>
    "could not encode " ++ messageType ++ " as " ++ contentType ++ ": " ++ reason
  | decode messageType contentType reason =>
    "could not decode " ++ messageType ++ " from " ++ contentType ++ ": " ++ reason

/-- `type_name::<CodecError>()`. -/
def codecErrorType : String := "sisa_messaging_core::codec::CodecError"

/-- The conversions of `From<Err> for HandlerError`: the error's type name and `Display`. -/
def HandlerError.ofCodec (error : CodecError) : HandlerError := ⟨codecErrorType, error.toText⟩

def HandlerError.ofStore (error : StoreError) : HandlerError :=
  ⟨"sisa_messaging_core::store::StoreError", error.toText⟩

def HandlerError.ofTransport (error : TransportError) : HandlerError :=
  ⟨"sisa_messaging_core::transport::TransportError", error.toText⟩

/-- How handling a delivery failed. -/
inductive Failure where
  /-- No retry can fix it. -/
  | undecodable (error : HandlerError)
  /-- A retry may work. -/
  | handler (error : HandlerError)
  deriving DecidableEq

/-! ## The context -/

/-- A transaction of the inbox store. -/
structure Transaction where
  id : Nat
  deriving DecidableEq

/-- What an endpoint's inbox hands its handlers: a transaction of the store, or `()`. -/
class InboxTransaction (T : Type) where
  transaction : T → Option Transaction

instance : InboxTransaction Unit := ⟨fun _ => none⟩

instance : InboxTransaction Transaction := ⟨some⟩

/-- What a handler gets with its message. -/
structure HandlerContext (T : Type) where
  source : Source
  endpoint : String
  envelope : Envelope
  attempt : Nat
  held : List Envelope
  transaction : T

/-- A message a handler published, as `encode` made it an envelope: its new id, the time, its type
    and its data. -/
structure Encoded where
  id : MessageId
  time : Timestamp
  messageType : MessageType
  data : List UInt8

/-- The JSON codec's content type. -/
def jsonContentType : ContentType := ⟨"application/json", by decide⟩

namespace HandlerContext

def new (source : Source) (endpoint : String) (envelope : Envelope) (attempt : Nat) :
    HandlerContext Unit :=
  { source, endpoint, envelope, attempt, held := [], transaction := () }

variable {T : Type}

/-- The same context with another transaction, and the transaction it had. -/
def withTransaction {Other : Type} (context : HandlerContext T) (transaction : Other) :
    HandlerContext Other × T :=
  ({ context with transaction }, context.transaction)

/-- `publish`: the envelope of a message a handler published has the handled message as its cause,
    and its correlation id and trace context. -/
def envelopeOf (context : HandlerContext T) (message : Encoded) : Envelope :=
  { id := message.id, messageType := message.messageType, source := context.source,
    time := message.time, subject := none, contentType := jsonContentType, dataSchema := none,
    partitionKey := none,
    correlation := ⟨context.envelope.correlation.correlationId, some context.envelope.id⟩,
    trace := context.envelope.trace, extensions := Extensions.new, data := message.data }

/-- The context after a handler published `messages`. -/
def publish (context : HandlerContext T) (messages : List Encoded) : HandlerContext T :=
  { context with held := context.held ++ messages.map context.envelopeOf }

end HandlerContext

/-! ## Operations -/

/-- How a handler ended. A panic may come without a message. -/
inductive Ended where
  | ok
  | failed (error : HandlerError)
  | panicked (message : Option String)

def Ended.isOk : Ended → Bool
  | ok => true
  | _ => false

/-- What the endpoints ask of handlers, stores, the broker and their delivery. `Msg` are the
    decoded messages. -/
inductive Op (Msg : Type) where
  | handle (message : Msg) (context : HandlerContext (Option Transaction))
  | begin
  | record (transaction : Transaction) (endpoint : String) (envelope : Envelope)
  | insert (transaction : Transaction) (envelopes : List Envelope)
  | commit (transaction : Transaction)
  /-- A transaction is dropped. -/
  | rollback (transaction : Transaction)
  | publish (envelope : Envelope)
  | publishError (endpoint : String) (envelope : Envelope)
  | ack
  | retry (delay : Duration)
  | reject

@[reducible] def Ret (Msg : Type) : Op Msg → Type
  | .handle _ _ => List Encoded × Ended
  | .begin => Except StoreError Transaction
  | .record _ _ _ => Except StoreError Bool
  | .insert _ _ => Except StoreError Unit
  | .commit _ => Except StoreError Unit
  | .rollback _ => Unit
  | .publish _ => Except TransportError Unit
  | .publishError _ _ => Except TransportError Unit
  | .ack => Except TransportError Unit
  | .retry _ => Except TransportError Unit
  | .reject => Except TransportError Unit

theorem Ret.nonempty {Msg : Type} (op : Op Msg) : Nonempty (Ret Msg op) := by
  cases op
  case handle => exact ⟨([], .ok)⟩
  case rollback => exact ⟨()⟩
  case begin | record | insert | commit => exact ⟨.error (.database "" "")⟩
  all_goals exact ⟨.error .closed⟩

abbrev Handling (Msg : Type) := Prog (Op Msg) (Ret Msg)

variable {Msg : Type}

def perform (op : Op Msg) : Handling Msg (Ret Msg op) := Prog.perform op

/-- Dropping a transaction rolls it back; `()` has nothing to roll back. -/
def dropTransaction {T : Type} [InboxTransaction T] (transaction : T) : Handling Msg Unit :=
  match InboxTransaction.transaction transaction with
  | some transaction => perform (.rollback transaction)
  | none => pure ()

/-! ## Handlers -/

/-- How a future ended: it returned, or it panicked. -/
inductive Outcome (α : Type) where
  | returned (value : α)
  | panicked (message : Option String)

/-- `essence`: the media type without its parameters. -/
def essence (contentType : String) : List Char :=
  let first := contentType.toList.takeWhile (· ≠ ';')
  (first.dropWhile isWhitespace).rdropWhile isWhitespace

/-- `JsonCodec::can_decode`: the media type is JSON's, whatever the ASCII case. -/
def canDecode (contentType : ContentType) : Bool :=
  (essence contentType.value).map Char.toLower == jsonContentType.value.toList.map Char.toLower

variable {T : Type} [InboxTransaction T]

/-- A handler of one message type, by how its message is decoded. -/
structure Typed (Msg : Type) where
  decode : List UInt8 → Outcome (Except CodecError Msg)

/-- Decodes the delivered data, then runs the handler: `Typed::decode_and_handle`. -/
def Typed.decodeAndHandle (typed : Typed Msg) (context : HandlerContext T) :
    Handling Msg (Outcome (Except Failure (HandlerContext T))) :=
  if !canDecode context.envelope.contentType then
    return .returned (.error (.undecodable
      ⟨codecErrorType, "no codec reads " ++ context.envelope.contentType.value⟩))
  else
    match typed.decode context.envelope.data with
    | .panicked message => return .panicked message
    | .returned (.error error) => return .returned (.error (.undecodable (.ofCodec error)))
    | .returned (.ok message) => do
      let transaction := InboxTransaction.transaction context.transaction
      let (published, ended) ← perform (.handle message (context.withTransaction transaction).1)
      match ended with
      | .ok => return .returned (.ok (context.publish published))
      | .failed error => return .returned (.error (.handler error))
      | .panicked message => return .panicked message

/-- A handler that fails or panics drops its context, and the transaction with it. -/
def Typed.handle (typed : Typed Msg) (context : HandlerContext T) :
    Handling Msg (Outcome (Except Failure (HandlerContext T))) := do
  match ← typed.decodeAndHandle context with
  | .returned (.ok context) => return .returned (.ok context)
  | .returned (.error failure) =>
    dropTransaction context.transaction
    return .returned (.error failure)
  | .panicked message =>
    dropTransaction context.transaction
    return .panicked message

/-- A handler with its message type erased: one added to the endpoint as it is, or one added
    before the endpoint's inbox, which runs in the delivery's transaction without seeing it. -/
inductive ErasedHandler (Msg : Type) where
  | typed (handler : Typed Msg)
  | withoutTransaction (handler : Typed Msg)

def ErasedHandler.handle (context : HandlerContext T) : ErasedHandler Msg →
    Handling Msg (Outcome (Except Failure (HandlerContext T)))
  | typed handler => handler.handle context
  | withoutTransaction handler => do
    let (context, transaction) := context.withTransaction ()
    match ← handler.handle context with
    | .returned (.ok context) => return .returned (.ok (context.withTransaction transaction).1)
    | .returned (.error failure) =>
      dropTransaction transaction
      return .returned (.error failure)
    | .panicked message =>
      dropTransaction transaction
      return .panicked message

/-- An endpoint's handlers by the message type they handle. -/
abbrev Handlers (Msg : Type) := List (MessageType × ErasedHandler Msg)

/-- The handler for the context's message type. -/
def find (handlers : Handlers Msg) (endpoint : String) (envelope : Envelope) :
    Except Failure (ErasedHandler Msg) :=
  match handlers.lookup envelope.messageType with
  | some handler => .ok handler
  | none => .error (.undecodable
      ⟨"no_handler", "endpoint " ++ endpoint ++ " has no handler for this message type"⟩)

/-- Runs a handler. One that panics fails like one that returns an error. -/
def call (handler : ErasedHandler Msg) (context : HandlerContext T) :
    Handling Msg (Except Failure (HandlerContext T)) := do
  match ← handler.handle context with
  | .returned result => return result
  | .panicked message =>
    return .error (.handler ⟨"panic", message.getD "a panic without a message"⟩)

end SisaMessaging.Runtime
