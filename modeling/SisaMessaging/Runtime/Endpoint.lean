/-
  Endpoints: the steps around a delivery's handler, and how the delivery is settled.

  `Pipeline.run` is the handler alone, or the inbox's transaction with its receipt around it.
  `Endpoint.process` runs it, sends the publishes it hands back, and settles the delivery.
-/
import SisaMessaging.Runtime.Handler
import SisaMessaging.Runtime.Retry

namespace SisaMessaging.Runtime

open SisaMessaging.Core SisaMessaging.Lib

variable {Msg : Type}

/-- A store that fails may work on a retry. -/
def Failure.ofStore (error : StoreError) : Failure := .handler (.ofStore error)

/-! ## Pipelines -/

/-- What the bus's outbox does with the publishes of a handler on an endpoint with an inbox. -/
inductive HandlerOutbox where
  /-- Leaves them held. -/
  | noOutbox
  /-- Writes them in the handler's transaction. -/
  | store

/-- Returns the publishes that stay held. -/
def HandlerOutbox.write (transaction : Transaction) (held : List Envelope) :
    HandlerOutbox → Handling Msg (Except StoreError (List Envelope))
  | noOutbox => return .ok held
  | store =>
    if held.isEmpty then return .ok held
    else do
      match ← perform (.insert transaction held) with
      | .error error => return .error error
      | .ok () => return .ok []

/-- An endpoint without an inbox, or with one. -/
inductive Pipeline (Msg : Type) where
  | plain (endpoint : String) (handlers : Handlers Msg)
  | transactional (endpoint : String) (handlers : Handlers Msg) (outbox : HandlerOutbox)

/-- Once the receipt is recorded: runs the handler, writes its publishes to the outbox and commits.
    A store that fails drops the transaction. -/
def runRecorded (handler : ErasedHandler Msg) (outbox : HandlerOutbox)
    (context : HandlerContext Transaction) : Handling Msg (Except Failure (List Envelope)) := do
  match ← call handler context with
  | .error failure => return .error failure
  | .ok handled =>
    match ← outbox.write handled.transaction handled.held with
    | .error error =>
      perform (.rollback handled.transaction)
      return .error (.ofStore error)
    | .ok held =>
      match ← perform (.commit handled.transaction) with
      | .error error => return .error (.ofStore error)
      | .ok () => return .ok held

/-- Handles the delivery in `context`, and returns the publishes to send before the ack. -/
def Pipeline.run (context : HandlerContext Unit) :
    Pipeline Msg → Handling Msg (Except Failure (List Envelope))
  | plain endpoint handlers =>
    match find handlers endpoint context.envelope with
    | .error failure => return .error failure
    | .ok handler => do
      match ← call handler context with
      | .error failure => return .error failure
      | .ok handled => return .ok handled.held
  | transactional endpoint handlers outbox =>
    match find handlers endpoint context.envelope with
    | .error failure => return .error failure
    | .ok handler => do
      match ← perform .begin with
      | .error error => return .error (.ofStore error)
      | .ok transaction =>
        match ← perform (.record transaction endpoint context.envelope) with
        | .error error =>
          perform (.rollback transaction)
          return .error (.ofStore error)
        | .ok false =>
          -- Handled before: committed at once, without running the handler.
          match ← perform (.commit transaction) with
          | .error error => return .error (.ofStore error)
          | .ok () => return .ok []
        | .ok true => runRecorded handler outbox (context.withTransaction transaction).1

/-! ## Settling -/

/-- Sets an extension whose name follows the rules: `insert(..).expect(..)`. -/
def expectInsert (extensions : Extensions) (name value : String)
    (h : checkExtensionName name = none) : Extensions where
  map := extensions.map.insert name value
  valid := extensions.valid_insert value h

/-- The copy for the error destination. -/
def errorEnvelope (envelope : Envelope) (endpoint : String) (error : HandlerError) (attempt : Nat) :
    Envelope :=
  let extensions := expectInsert envelope.extensions "errorendpoint" endpoint (by decide)
  let extensions := expectInsert extensions "errortype" error.errorType (by decide)
  let extensions := expectInsert extensions "errormessage" error.message (by decide)
  let extensions := expectInsert extensions "errorattempts" (toString attempt) (by decide)
  { envelope with extensions }

/-- Sends a handler's held publishes in order, up to the first that fails. -/
def sendHeld : List Envelope → Handling Msg (Except Failure Unit)
  | [] => return .ok ()
  | envelope :: held => do
    match ← perform (.publish envelope) with
    | .error error => return .error (.handler (.ofTransport error))
    | .ok () => sendHeld held

structure Endpoint (Msg : Type) where
  name : String
  retry : RetryPolicy
  pipeline : Pipeline Msg

/-- One message received on an endpoint, and which delivery of it this is. -/
structure Delivery where
  envelope : Envelope
  attempt : Nat

namespace Endpoint

/-- The context a delivery's handling starts with. -/
def context (endpoint : Endpoint Msg) (source : Source) (delivery : Delivery) :
    HandlerContext Unit :=
  .new source endpoint.name delivery.envelope delivery.attempt

/-- Gives up: the error destination, or a retry when it didn't take the copy. -/
def giveUp (endpoint : Endpoint Msg) (delivery : Delivery) (error : HandlerError) :
    Handling Msg (Except TransportError Unit) := do
  let failed := errorEnvelope delivery.envelope endpoint.name error delivery.attempt
  match ← perform (.publishError endpoint.name failed) with
  | .ok () => perform .reject
  | .error _ => perform (.retry (endpoint.retry.delay delivery.attempt))

/-- Settles the delivery by how its handling ended. -/
def settle (endpoint : Endpoint Msg) (delivery : Delivery) :
    Except Failure Unit → Handling Msg (Except TransportError Unit)
  | .ok () => perform .ack
  | .error (.handler error) =>
    if !endpoint.retry.isLast delivery.attempt then
      perform (.retry (endpoint.retry.delay delivery.attempt))
    else endpoint.giveUp delivery error
  | .error (.undecodable error) => endpoint.giveUp delivery error

/-- The pipeline, and the sends after it. -/
def handleAndSend (endpoint : Endpoint Msg) (source : Source) (delivery : Delivery) :
    Handling Msg (Except Failure Unit) := do
  match ← endpoint.pipeline.run (endpoint.context source delivery) with
  | .ok held => sendHeld held
  | .error failure => return .error failure

/-- Handles one delivery and settles it. A delivery the broker didn't settle comes again. -/
def process (endpoint : Endpoint Msg) (source : Source) (delivery : Delivery) :
    Handling Msg Unit := do
  let result ← endpoint.handleAndSend source delivery
  let _ ← endpoint.settle delivery result
  return ()

end Endpoint

/-! ## A message -/

/-- The endpoint `billing` of the runs below, and the message it gets. -/
def billing : Source := ⟨"/billing", by decide⟩

def orderShipped : Envelope where
  id := ⟨0⟩
  messageType := ⟨"orders.order_shipped.v1", by decide⟩
  source := ⟨"/orders", by decide⟩
  time := .fromUnixNanos 0
  subject := none
  contentType := jsonContentType
  dataSchema := none
  partitionKey := none
  correlation := ⟨none, none⟩
  trace := none
  extensions := Extensions.new
  data := []

end SisaMessaging.Runtime
