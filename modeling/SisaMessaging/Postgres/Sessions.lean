/-
  Deliveries over PostgreSQL: what each statement of a delivery does to the tables and is answered.

  `Stage` is where a transaction is. A statement that fails aborts its transaction; PostgreSQL then
  answers each further statement with an error, and a commit with a rollback and no error. Unique
  constraints hold over the rows of every transaction that isn't rolled back: an insert waits for the
  others that conflict, so it is answered when they have ended. `sqlInbox` is the system of all
  deliveries, each statement a step of its own.
-/
import SisaMessaging.Lib.Refine
import SisaMessaging.Postgres.Inbox
import SisaMessaging.Runtime.InboxOnce

namespace SisaMessaging.Postgres

open SisaMessaging.Core SisaMessaging.Lib SisaMessaging.Runtime

variable {Msg : Type}

/-- Where a transaction is. -/
inductive Stage where
  | active
  /-- A statement failed, and the transaction can only roll back. -/
  | aborted
  /-- Its commit reported an error, and the database may still do either. -/
  | unresolved
  | committed
  | rolledBack
  deriving DecidableEq

/-- How much of it the inbox's contract tells apart. -/
def Stage.status : Stage → Runtime.Status
  | active | aborted => .running
  | unresolved => .unresolved
  | committed => .committed
  | rolledBack => .rolledBack

/-- The tables, with what the deliveries did. -/
structure SqlInbox (Msg : Type) where
  deliveries : Nat → Option (InboxDelivery Msg)
  /-- Every transaction so far, with the delivery that began it. -/
  sessions : Transaction → Option (Nat × Stage)
  /-- `inbox_receipts`, each row with its transaction. -/
  receipts : List (Transaction × ReceiptRow)
  /-- `outbox_messages`, each row with its transaction. -/
  rows : List (Transaction × Envelope)
  runs : List HandlerRun
  sent : List (Nat × Envelope)
  acked : List Nat

/-- The constraints of `inbox_receipts` don't let both rows stand: the primary key (message time, id),
    or the unique one (endpoint, message id, message time). -/
def ReceiptRow.Conflicts (times : PgTimes) (row other : ReceiptRow) : Prop :=
  ∃ time, times.cast row.messageTime = some time ∧ times.cast other.messageTime = some time ∧
    (row.id = other.id ∨ (row.endpoint = other.endpoint ∧ row.messageId = other.messageId))

namespace SqlInbox

def Empty (s : SqlInbox Msg) : Prop :=
  (∀ i, s.deliveries i = none) ∧ (∀ t, s.sessions t = none) ∧ s.receipts = [] ∧ s.rows = [] ∧
    s.runs = [] ∧ s.sent = [] ∧ s.acked = []

def Active (s : SqlInbox Msg) (t : Transaction) : Prop := ∃ i, s.sessions t = some (i, .active)

def Committed (s : SqlInbox Msg) (t : Transaction) : Prop := ∃ i, s.sessions t = some (i, .committed)

def RolledBack (s : SqlInbox Msg) (t : Transaction) : Prop :=
  ∃ i, s.sessions t = some (i, .rolledBack)

def setSession (s : SqlInbox Msg) (t : Transaction) (i : Nat) (stage : Stage) : SqlInbox Msg :=
  { s with sessions := Function.update s.sessions t (some (i, stage)) }

def addReceipt (s : SqlInbox Msg) (t : Transaction) (row : ReceiptRow) : SqlInbox Msg :=
  { s with receipts := s.receipts ++ [(t, row)] }

def addRow (s : SqlInbox Msg) (t : Transaction) (envelope : Envelope) : SqlInbox Msg :=
  { s with rows := s.rows ++ [(t, envelope)] }

def addRun (s : SqlInbox Msg) (run : HandlerRun) : SqlInbox Msg := { s with runs := s.runs ++ [run] }

def addSent (s : SqlInbox Msg) (i : Nat) (envelope : Envelope) : SqlInbox Msg :=
  { s with sent := s.sent ++ [(i, envelope)] }

def addAcked (s : SqlInbox Msg) (i : Nat) : SqlInbox Msg := { s with acked := s.acked ++ [i] }

/-- The transaction goes from one stage to another. -/
def Moves (s s' : SqlInbox Msg) (t : Transaction) (before after : Stage) : Prop :=
  ∃ i, s.sessions t = some (i, before) ∧ s' = s.setSession t i after

/-- Every row that conflicts is of a transaction that was rolled back. PostgreSQL frees the row of an
    aborted transaction at the statement that failed: such a transaction is rolled back here. -/
def Free (times : PgTimes) (s : SqlInbox Msg) (row : ReceiptRow) : Prop :=
  ∀ r ∈ s.receipts, row.Conflicts times r.2 → s.RolledBack r.1

/-- A row that conflicts is committed, or the transaction's own. -/
def Taken (times : PgTimes) (s : SqlInbox Msg) (t : Transaction) (row : ReceiptRow) : Prop :=
  ∃ r ∈ s.receipts, row.Conflicts times r.2 ∧ (r.1 = t ∨ s.Committed r.1)

/-- What a statement of delivery `i` does to the tables and what it is answered. -/
def Answers (times : PgTimes) (i : Nat) (s s' : SqlInbox Msg) :
    (statement : Sql Msg) → SqlRet Msg statement → Prop
  | .begin, .ok t => s.sessions t = none ∧ s' = s.setSession t i .active
  | .insertReceipt t row, .ok affected => s.Active t ∧ (times.cast row.messageTime).isSome ∧
    ((affected = 1 ∧ s.Free times row ∧ s' = s.addReceipt t row) ∨
      (affected = 0 ∧ s.Taken times t row ∧ s' = s))
  | .insertReceipt t row, .error _ => s' = s ∨ s.Moves s' t .active .aborted ∨
    ((times.cast row.messageTime).isSome ∧ s.Free times row ∧
      (s.addReceipt t row).Moves s' t .active .aborted)
  | .insertRow t envelope, .ok () => s.Active t ∧ s' = s.addRow t envelope
  | .insertRow t envelope, .error _ => s' = s ∨ s.Moves s' t .active .aborted ∨
    (s.addRow t envelope).Moves s' t .active .aborted
  | .check t, .ok () => s.Active t ∧ s' = s
  | .check t, .error _ => s' = s ∨ s.Moves s' t .active .aborted
  -- An aborted transaction is rolled back, without an error.
  | .commit t, .ok () => s.Moves s' t .active .committed ∨ s.Moves s' t .aborted .rolledBack
  | .commit t, .error _ => s' = s ∨ (∃ stage, s.Moves s' t .active stage) ∨
    s.Moves s' t .aborted .rolledBack
  | .rollback t, _ => s' = s ∨ s.Moves s' t .active .rolledBack ∨ s.Moves s' t .aborted .rolledBack
  -- The handler's own statements may fail, and it may return all the same.
  | .pass (.handle _ context), (published, ended) => ∃ s₁,
    (s₁ = s ∨ ∃ t, s.sessions t = some (i, .active) ∧ s₁ = s.setSession t i .aborted) ∧
      s' = s₁.addRun ⟨i, published.map context.envelopeOf, ended.isOk⟩
  | .pass (.publish envelope), reply => s' = s.addSent i envelope ∨ (reply ≠ .ok () ∧ s' = s)
  | .pass .ack, _ => s' = s.addAcked i
  | _, _ => s' = s

/-- What the database does on its own: it rolls a transaction back whose connection is lost, it undoes
    an aborted one, which can't be committed any more, at any time from the failed statement on, and
    it resolves one whose commit reported an error. -/
def Resolves (s s' : SqlInbox Msg) (t : Transaction) : Prop :=
  s.Moves s' t .active .rolledBack ∨ s.Moves s' t .aborted .rolledBack ∨
    s.Moves s' t .unresolved .committed ∨ s.Moves s' t .unresolved .rolledBack

end SqlInbox

/-- Any number of deliveries over one database, each with the inbox of its endpoint. -/
def sqlInbox (times : PgTimes) (uuids : UuidFormat) (store : InboxDelivery Msg → PostgresInbox) :
    System Nat (Sql Msg) (SqlRet Msg) (InboxDelivery Msg) (SqlInbox Msg) Transaction where
  body job := job.process.refine (statements (store job) uuids)
  launch i job s s' :=
    s.deliveries i = none ∧ s' = { s with deliveries := Function.update s.deliveries i (some job) }
  exec i _ statement reply s s' := s.Answers times i s' statement reply
  leave _ _ s s' := s' = s
  env t s s' := s.Resolves s' t

abbrev SqlPool (Msg : Type) :=
  System.State Nat (Sql Msg) (SqlRet Msg) (InboxDelivery Msg) (SqlInbox Msg)

/-- Ids are unique: deliveries with one message id are of one message, with one time, and no receipt
    has the id of another. -/
def UniqueIds (st : SqlPool Msg) :
    System.Label Nat (Sql Msg) (SqlRet Msg) (InboxDelivery Msg) Transaction → Prop
  | .launch _ job => ∀ i other, st.shared.deliveries i = some other →
    other.delivery.envelope.id = job.delivery.envelope.id →
      other.delivery.envelope.time = job.delivery.envelope.time
  | .exec _ (.insertReceipt _ row) _ => ∀ r ∈ st.shared.receipts, r.2.id ≠ row.id
  | _ => True

end SisaMessaging.Postgres
