/-
  The inbox: many instances of endpoints handle deliveries at once over one store.

  `Inbox` is the store's tables with what the deliveries did. `Answers` says what each operation
  may do and answer: a commit that reports an error may have committed, may not have, or may still
  do either; a statement that reports an error may have written. `inbox` is the system of all
  deliveries.
-/
import SisaMessaging.Lib.Pool
import SisaMessaging.Runtime.InboxProtocol

namespace SisaMessaging.Runtime

open SisaMessaging.Core SisaMessaging.Lib

variable {Msg : Type}

/-- What receipts are unique by: the endpoint, the message's id and its time. -/
structure ReceiptKey where
  endpoint : String
  id : MessageId
  time : Timestamp
  deriving DecidableEq

def receiptKey (endpoint : String) (envelope : Envelope) : ReceiptKey :=
  ⟨endpoint, envelope.id, envelope.time⟩

def InboxDelivery.key (job : InboxDelivery Msg) : ReceiptKey :=
  receiptKey job.name job.delivery.envelope

/-- The state of a transaction. -/
inductive Status where
  | running
  /-- Its commit reported an error, and the database may still do either. -/
  | unresolved
  | committed
  | rolledBack
  deriving DecidableEq

/-- A row of the receipts, with the transaction and the delivery that wrote it. -/
structure Receipt where
  key : ReceiptKey
  transaction : Transaction
  delivery : Nat

/-- A row of the outbox, with the transaction and the delivery that wrote it. -/
structure OutboxRow where
  envelope : Envelope
  transaction : Transaction
  delivery : Nat

/-- A delivery's handler ran: what it published, and whether it returned Ok. -/
structure HandlerRun where
  delivery : Nat
  published : List Envelope
  returned : Bool

structure Inbox (Msg : Type) where
  /-- Every delivery so far, by its number. -/
  deliveries : Nat → Option (InboxDelivery Msg)
  /-- Every transaction so far, with the delivery that began it. -/
  transactions : Transaction → Option (Nat × Status)
  receipts : List Receipt
  rows : List OutboxRow
  runs : List HandlerRun
  /-- What deliveries sent to the broker themselves. -/
  sent : List (Nat × Envelope)
  acked : List Nat

namespace Inbox

def Empty (s : Inbox Msg) : Prop :=
  (∀ i, s.deliveries i = none) ∧ (∀ t, s.transactions t = none) ∧ s.receipts = [] ∧ s.rows = [] ∧
    s.runs = [] ∧ s.sent = [] ∧ s.acked = []

/-! ## What the store does -/

def Running (s : Inbox Msg) (t : Transaction) : Prop := ∃ i, s.transactions t = some (i, .running)

def Committed (s : Inbox Msg) (t : Transaction) : Prop :=
  ∃ i, s.transactions t = some (i, .committed)

def ReceiptCommitted (s : Inbox Msg) (key : ReceiptKey) : Prop :=
  ∃ r ∈ s.receipts, r.key = key ∧ s.Committed r.transaction

/-- Receipts stay unique when `t` commits. -/
def CanCommit (s : Inbox Msg) (t : Transaction) : Prop :=
  ∀ r ∈ s.receipts, r.transaction = t → ¬ s.ReceiptCommitted r.key

def setTransaction (s : Inbox Msg) (t : Transaction) (i : Nat) (status : Status) : Inbox Msg :=
  { s with transactions := Function.update s.transactions t (some (i, status)) }

def addReceipt (s : Inbox Msg) (r : Receipt) : Inbox Msg :=
  { s with receipts := s.receipts ++ [r] }

def addRows (s : Inbox Msg) (t : Transaction) (i : Nat) (envelopes : List Envelope) : Inbox Msg :=
  { s with rows := s.rows ++ envelopes.map fun envelope => ⟨envelope, t, i⟩ }

def addRun (s : Inbox Msg) (run : HandlerRun) : Inbox Msg := { s with runs := s.runs ++ [run] }

def addSent (s : Inbox Msg) (i : Nat) (envelope : Envelope) : Inbox Msg :=
  { s with sent := s.sent ++ [(i, envelope)] }

def addAcked (s : Inbox Msg) (i : Nat) : Inbox Msg := { s with acked := s.acked ++ [i] }

/-- How a commit of `t` may end. -/
def Ends (s s' : Inbox Msg) (t : Transaction) (i : Nat) (status : Status) : Prop :=
  (status = .committed → s.CanCommit t) ∧ s' = s.setTransaction t i status

/-- What an operation of delivery `i` does to the tables and what it is answered. -/
def Answers (i : Nat) (s s' : Inbox Msg) : (op : Op Msg) → Ret Msg op → Prop
  | .begin, .ok t => s.transactions t = none ∧ s' = s.setTransaction t i .running
  | .record t endpoint envelope, .ok true =>
    s.Running t ∧ ¬ s.ReceiptCommitted (receiptKey endpoint envelope) ∧
      s' = s.addReceipt ⟨receiptKey endpoint envelope, t, i⟩
  | .record t endpoint envelope, .ok false =>
    s.Running t ∧ s.ReceiptCommitted (receiptKey endpoint envelope) ∧ s' = s
  | .record t endpoint envelope, .error _ =>
    s' = s ∨ (s.Running t ∧ s' = s.addReceipt ⟨receiptKey endpoint envelope, t, i⟩)
  | .handle _ context, (published, ended) =>
    s' = s.addRun ⟨i, published.map context.envelopeOf, ended.isOk⟩
  | .insert t envelopes, .ok () => s.Running t ∧ s' = s.addRows t i envelopes
  | .insert t envelopes, .error _ =>
    s' = s ∨ (s.Running t ∧ ∃ written, written <+: envelopes ∧ s' = s.addRows t i written)
  | .commit t, .ok () => s.Running t ∧ s.Ends s' t i .committed
  | .commit t, .error _ => s' = s ∨ (s.Running t ∧ ∃ status, s.Ends s' t i status)
  | .rollback t, _ => s' = s ∨ (s.Running t ∧ s' = s.setTransaction t i .rolledBack)
  | .publish envelope, reply => s' = s.addSent i envelope ∨ (reply ≠ .ok () ∧ s' = s)
  | .ack, _ => s' = s.addAcked i
  | _, _ => s' = s

/-- What the database does on its own: it rolls a transaction back whose connection is lost, and
    resolves one whose commit reported an error. -/
def Resolves (s s' : Inbox Msg) (t : Transaction) : Prop :=
  ∃ i, (s.transactions t = some (i, .running) ∧ s' = s.setTransaction t i .rolledBack) ∨
    (s.transactions t = some (i, .unresolved) ∧ ∃ status, s.Ends s' t i status)

end Inbox

/-- Any number of deliveries by instances of endpoints over one inbox. A delivery that stops leaves
    its transaction to the database. -/
def inbox (Msg : Type) :
    System Nat (Op Msg) (Ret Msg) (InboxDelivery Msg) (Inbox Msg) Transaction where
  body := InboxDelivery.process
  launch i job s s' :=
    s.deliveries i = none ∧ s' = { s with deliveries := Function.update s.deliveries i (some job) }
  exec i _ op reply s s' := s.Answers i s' op reply
  leave _ _ s s' := s' = s
  env t s s' := s.Resolves s' t

abbrev Inbox.Pool (Msg : Type) := System.State Nat (Op Msg) (Ret Msg) (InboxDelivery Msg) (Inbox Msg)

end SisaMessaging.Runtime
