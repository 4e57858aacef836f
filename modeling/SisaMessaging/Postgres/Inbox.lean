/-
  The inbox in `inbox_receipts`: what a receipt keeps of its message, and the statements of a
  delivery's transaction.

  `PostgresInbox`'s methods and `PostgresOutbox::insert` are programs over statements (`Sql`). The reply
  to a statement is what the client library returns: an error as its text, or the rows it affected.
-/
import SisaMessaging.Postgres.Outbox
import SisaMessaging.Runtime.Endpoint

namespace SisaMessaging.Postgres

open SisaMessaging.Core SisaMessaging.Lib SisaMessaging.Runtime

/-! ## Receipts -/

/-- The columns that `record` binds. `received_at` is the database's. -/
structure ReceiptRow where
  id : BitVec 128
  messageTime : String
  endpoint : String
  messageId : BitVec 128
  messageType : String
  source : String
  correlationId : Option (BitVec 128)
  attributes : Attributes
  data : Option (List UInt8)

structure PostgresInbox where
  keepData : Bool

namespace PostgresInbox

def new : PostgresInbox := ⟨false⟩

/-- The attributes that have a column of their own. `specversion` is always `1.0`. -/
def columnAttributes : List String := ["specversion", "id", "type", "source", "correlationid"]

/-- The CloudEvents attributes without a column: time, subject, content type, causation, trace and
    extensions. -/
def attributes (uuids : UuidFormat) (envelope : Envelope) : Attributes :=
  columnAttributes.foldl (fun attributes name => attributes.erase name) (envelope.toAttributes uuids)

/-- What `record` binds for an envelope. -/
def receipt (inbox : PostgresInbox) (uuids : UuidFormat) (id : MessageId) (endpoint : String)
    (envelope : Envelope) : ReceiptRow where
  id := id.uuid
  messageTime := envelope.time.toText
  endpoint := endpoint
  messageId := envelope.id.uuid
  messageType := envelope.messageType.value
  source := envelope.source.value
  correlationId := envelope.correlation.correlationId.map (·.uuid)
  attributes := attributes uuids envelope
  data := if inbox.keepData then some envelope.data else none

variable {uuids : UuidFormat} {inbox : PostgresInbox} {id id' : MessageId} {endpoint endpoint' : String}
  {envelope envelope' : Envelope}

theorem getElem?_attributes (name : String) : (attributes uuids envelope)[name]? =
    if name ∈ columnAttributes then none else (envelope.toAttributes uuids)[name]? :=
  Envelope.getElem?_eraseAll _ _ _

/-- The columns and the other attributes together are the message's attributes. -/
theorem toAttributes_of_receipt
    (h : inbox.receipt uuids id endpoint envelope = inbox.receipt uuids id' endpoint' envelope') :
    envelope.toAttributes uuids = envelope'.toAttributes uuids := by
  simp only [receipt, ReceiptRow.mk.injEq] at h
  obtain ⟨_, _, _, hid, htype, hsource, hcorrelation, hattributes, _⟩ := h
  have hids : ∀ a b : MessageId, a.uuid = b.uuid → a = b := by
    rintro ⟨a⟩ ⟨b⟩ rfl
    rfl
  have hcorrelation : envelope.correlation.correlationId = envelope'.correlation.correlationId :=
    Option.map_injective hids hcorrelation
  refine Std.ExtTreeMap.ext_getElem? fun name => ?_
  by_cases hm : name ∈ columnAttributes
  · have field (e : Envelope) : ∀ value, (name, value) ∈ e.fields uuids →
        (e.toAttributes uuids)[name]? = value := fun value h => Envelope.toAttributes_field uuids e h
    simp only [columnAttributes, List.mem_cons, List.not_mem_nil, or_false] at hm
    rcases hm with rfl | rfl | rfl | rfl | rfl
    all_goals
      rw [field envelope _ (by simp [Envelope.fields]; rfl),
        field envelope' _ (by simp [Envelope.fields]; rfl)]
    · rw [hids _ _ hid]
    · rw [htype]
    · rw [hsource]
    · rw [hcorrelation]
  · have hname := congrArg (fun m : Attributes => m[name]?) hattributes
    simp only [getElem?_attributes, if_neg hm] at hname
    exact hname

/-- A receipt keeps the whole message but its data, and with `keep_data` the data too: messages with
    one receipt are the same. -/
theorem receipt_keeps
    (h : inbox.receipt uuids id endpoint envelope = inbox.receipt uuids id' endpoint' envelope') :
    endpoint = endpoint' ∧ envelope' = { envelope with data := envelope'.data } ∧
      (inbox.keepData = true → envelope' = envelope) := by
  have hsame : envelope' = { envelope with data := envelope'.data } := by
    have reads (e : Envelope) : Envelope.fromAttributes uuids (e.toAttributes uuids) envelope'.data =
        .ok { e with data := envelope'.data } :=
      Envelope.fromAttributes_eq_ok.mpr
        (Envelope.reads_toAttributes uuids { e with data := envelope'.data })
    have hread := reads envelope
    rw [toAttributes_of_receipt h, reads envelope'] at hread
    exact Except.ok.inj hread
  refine ⟨congrArg ReceiptRow.endpoint h, hsame, fun hkeep => ?_⟩
  have hdata : some envelope.data = some envelope'.data := by
    simpa [receipt, hkeep] using congrArg ReceiptRow.data h
  rw [hsame, ← Option.some.inj hdata]

/-- Without `keep_data`, messages that differ only in their data have one receipt. -/
theorem receipt_keeps_shipped : ∃ other : Envelope, other ≠ orderShipped ∧
    other = { orderShipped with data := other.data } := by
  have hsame : new.receipt .rfc9562 ⟨7⟩ "billing" orderShipped =
      new.receipt .rfc9562 ⟨7⟩ "billing" { orderShipped with data := [1] } := rfl
  have hdata : orderShipped.data ≠ [1] := by decide
  exact ⟨{ orderShipped with data := [1] }, fun h => hdata (congrArg Envelope.data h).symm,
    (receipt_keeps hsame).2.1⟩

end PostgresInbox

/-! ## Statements -/

/-- What a delivery asks of the database, and what it asks of others (`pass`). -/
inductive Sql (Msg : Type) where
  | begin
  /-- `MessageId::new`, for a receipt. -/
  | newId
  /-- `INSERT INTO inbox_receipts .. ON CONFLICT DO NOTHING`. -/
  | insertReceipt (transaction : Transaction) (row : ReceiptRow)
  /-- `INSERT INTO outbox_messages ..`, with the envelope's columns. -/
  | insertRow (transaction : Transaction) (envelope : Envelope)
  /-- `SELECT 1`. -/
  | check (transaction : Transaction)
  | commit (transaction : Transaction)
  /-- A transaction is dropped. -/
  | rollback (transaction : Transaction)
  | pass (op : Op Msg)

@[reducible] def SqlRet (Msg : Type) : Sql Msg → Type
  | .begin => Except String Transaction
  | .newId => MessageId
  | .insertReceipt _ _ => Except String Nat
  | .insertRow _ _ => Except String Unit
  | .check _ => Except String Unit
  | .commit _ => Except String Unit
  | .rollback _ => Unit
  | .pass op => Ret Msg op

abbrev Executing (Msg : Type) := Prog (Sql Msg) (SqlRet Msg)

variable {Msg : Type}

def execute (statement : Sql Msg) : Executing Msg (SqlRet Msg statement) := Prog.perform statement

namespace PostgresInbox

def begin : Executing Msg (Except StoreError Transaction) := do
  return (← execute .begin).mapError (.database "beginning an inbox transaction")

def record (inbox : PostgresInbox) (uuids : UuidFormat) (transaction : Transaction)
    (endpoint : String) (envelope : Envelope) : Executing Msg (Except StoreError Bool) := do
  let id ← execute .newId
  match ← execute (.insertReceipt transaction (inbox.receipt uuids id endpoint envelope)) with
  | .error error => return .error (.database "inserting an inbox receipt" error)
  | .ok affected => return .ok (affected == 1)

/-- A statement first: it fails where the commit of an aborted transaction would be answered with a
    rollback and no error. -/
def commit (transaction : Transaction) : Executing Msg (Except StoreError Unit) := do
  match ← execute (.check transaction) with
  | .error error =>
    return .error (.database "checking the inbox transaction before its commit" error)
  | .ok () =>
    return (← execute (.commit transaction)).mapError (.database "committing an inbox transaction")

end PostgresInbox

/-- `PostgresOutbox::insert`: the rows one by one, up to the first that fails. -/
def insertAll (transaction : Transaction) :
    List Envelope → Executing Msg (Except StoreError Unit)
  | [] => return .ok ()
  | envelope :: envelopes => do
    match ← execute (.insertRow transaction envelope) with
    | .error error => return .error (.database "inserting an outbox row" error)
    | .ok () => insertAll transaction envelopes

/-- What each operation of a delivery is on PostgreSQL. -/
def statements (inbox : PostgresInbox) (uuids : UuidFormat) :
    (op : Op Msg) → Executing Msg (Ret Msg op)
  | .begin => PostgresInbox.begin
  | .record transaction endpoint envelope => inbox.record uuids transaction endpoint envelope
  | .insert transaction envelopes => insertAll transaction envelopes
  | .commit transaction => PostgresInbox.commit transaction
  | .rollback transaction => execute (.rollback transaction)
  | .handle message context => execute (.pass (.handle message context))
  | .publish envelope => execute (.pass (.publish envelope))
  | .publishError endpoint envelope => execute (.pass (.publishError endpoint envelope))
  | .ack => execute (.pass .ack)
  | .retry delay => execute (.pass (.retry delay))
  | .reject => execute (.pass .reject)

end SisaMessaging.Postgres
