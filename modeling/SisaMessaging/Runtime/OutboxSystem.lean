/-
  Dispatchers over one outbox table, next to application transactions and people.

  A worker of the pool runs one round; a dispatcher's next round is another worker. A round may stop
  at any of its operations: its task is dropped, and the database may or may not have done the last
  one. A statement that reports an error may have taken effect.
-/
import SisaMessaging.Lib.Pool
import SisaMessaging.Postgres.OutboxTable
import SisaMessaging.Runtime.DispatchProtocol

namespace SisaMessaging.Runtime

open SisaMessaging.Core SisaMessaging.Postgres SisaMessaging.Lib
open SisaMessaging.Lib.Prog (Obeys)

/-- A publish by a round, as the broker's side logs it. -/
structure Publication where
  round : Nat
  record : OutboxRecord
  reply : PublishReply

/-- An application's transaction: when it started, and what it inserted. -/
structure OpenTransaction where
  start : Int
  envelopes : List Envelope

structure OutboxState where
  table : OutboxTable
  /-- The settings of each round that started, for good. -/
  rounds : Nat → Option DispatchSettings
  /-- Every publish, oldest first. -/
  publications : List Publication
  transactions : Nat → Option OpenTransaction
  /-- The envelope that a committed transaction inserted as the row. -/
  inserted : RowKey → Option Envelope

namespace OutboxState

/-- A claim by round `i`: it took effect, and its reply, unless it is an error, is the rows. Or it
    didn't, and the reply is an error. -/
def Claims (times : PgTimes) (i limit : Nat) (lease : Duration)
    (reply : Except String (List ClaimedRow)) (w w' : OutboxState) : Prop :=
  (∃ span now keys table, interval lease = some span ∧
    ClaimDue i limit span now keys w.table table ∧ w' = { w with table } ∧
    ∀ rows, reply = .ok rows →
      List.Forall₂ (fun key row => (table.rows key).bind (claimedRow times key) = some row)
        keys rows) ∨
  ((∃ error, reply = .error error) ∧ w' = w)

/-- A mark: it took effect, or its reply is an error. -/
def Marks (times : PgTimes) (op : DispatchOp) (reply : Except String Unit) (w w' : OutboxState) :
    Prop :=
  (∃ set now table, op.sets = some set ∧ MarkRows times op.marks set now w.table table ∧
    w' = { w with table }) ∨
  ((∃ error, reply = .error error) ∧ w' = w)

/-- What a round's operation does. The broker and the clocks reply anything. -/
def exec (times : PgTimes) (i : Nat) :
    (op : DispatchOp) → DispatchRet op → OutboxState → OutboxState → Prop
  | .claimDue limit lease, reply, w, w' => w.Claims times i limit lease reply w'
  | .failUnreadable mark error, reply, w, w' => w.Marks times (.failUnreadable mark error) reply w'
  | .setDispatched marks, reply, w, w' => w.Marks times (.setDispatched marks) reply w'
  | .putBack mark error delay, reply, w, w' => w.Marks times (.putBack mark error delay) reply w'
  | .setFailed mark error, reply, w, w' => w.Marks times (.setFailed mark error) reply w'
  | .publish record _, reply, w, w' =>
    w' = { w with publications := w.publications ++ [⟨i, record, reply⟩] }
  | .now, _, w, w' | .stopping, _, w, w' => w' = w

/-- Only a claim, or a mark that finds the row, changes a row. -/
theorem exec_rows {times : PgTimes} {i : Nat} {op : DispatchOp} {reply : DispatchRet op}
    {w w' : OutboxState} (he : w.exec times i op reply w')
    (hop : ∀ limit lease, op ≠ .claimDue limit lease) {key : RowKey}
    (hchange : w'.table.rows key ≠ w.table.rows key) :
    ∃ set now row, op.sets = some set ∧ w.table.rows key = some row ∧
      w'.table.rows key = some (set now row) ∧
      ∃ mark ∈ op.marks, mark.hits times key row = true := by
  have marks : ∀ {op : DispatchOp} {reply : Except String Unit}, w.Marks times op reply w' →
      ∃ set now row, op.sets = some set ∧ w.table.rows key = some row ∧
        w'.table.rows key = some (set now row) ∧
        ∃ mark ∈ op.marks, mark.hits times key row = true := by
    rintro op reply (⟨set, now, table, hset, hmark, rfl⟩ | ⟨_, rfl⟩)
    · dsimp only at hchange ⊢
      cases hr : w.table.rows key with
      | none => simp [hmark.eq, OutboxTable.update, hr] at hchange
      | some row =>
        cases hh : Mark.anyHits times op.marks key row with
        | false => simp [hmark.eq, OutboxTable.update, hr, hh] at hchange
        | true =>
          refine ⟨set, now, row, hset, rfl, ?_, List.any_eq_true.mp hh⟩
          simp [hmark.eq, OutboxTable.update, hr, hh]
    · exact absurd rfl hchange
  cases op with
  | claimDue limit lease => exact absurd rfl (hop limit lease)
  | failUnreadable mark error => exact marks he
  | setDispatched all => exact marks he
  | putBack mark error delay => exact marks he
  | setFailed mark error => exact marks he
  | publish r deadline =>
    rw [he] at hchange
    exact absurd rfl hchange
  | now =>
    rw [he] at hchange
    exact absurd rfl hchange
  | stopping =>
    rw [he] at hchange
    exact absurd rfl hchange

end OutboxState

/-- What others do to the table. -/
inductive OutboxAction where
  /-- An application's transaction starts at `now`. -/
  | begin (transaction : Nat) (now : Int)
  /-- It inserts a row for an envelope. -/
  | insert (transaction : Nat) (envelope : Envelope)
  | commit (transaction : Nat)
  | rollback (transaction : Nat)
  /-- A person sets a failed row back to pending. -/
  | requeue (key : RowKey)
  /-- Something other than this crate writes a new row at `now`. -/
  | write (key : RowKey) (row : Postgres.OutboxRow) (now : Int)

namespace OutboxState

/-- What an action does. The primary key keeps two rows from having one key. -/
def act (uuids : UuidFormat) : OutboxAction → OutboxState → OutboxState → Prop
  | .begin t now, w, w' => w.transactions t = none ∧
      w' = { w with transactions := Function.update w.transactions t (some ⟨now, []⟩) }
  | .insert t envelope, w, w' => ∃ start envelopes, w.transactions t = some ⟨start, envelopes⟩ ∧
      w' = { w with
        transactions := Function.update w.transactions t (some ⟨start, envelopes ++ [envelope]⟩) }
  | .commit t, w, w' => ∃ start envelopes, w.transactions t = some ⟨start, envelopes⟩ ∧
      (envelopes.map fun envelope => envelope.id.uuid).Nodup ∧
      (∀ envelope ∈ envelopes, w.table.rows (start, envelope.id.uuid) = none) ∧
      w' = { w with
        table := w.table.insert uuids envelopes start
        transactions := Function.update w.transactions t none
        inserted := fun key => (envelopes.find? fun envelope => (start, envelope.id.uuid) = key).or
          (w.inserted key) }
  | .rollback t, w, w' => w.transactions t ≠ none ∧
      w' = { w with transactions := Function.update w.transactions t none }
  | .requeue key, w, w' => ∃ row, w.table.rows key = some row ∧ row.status = .failed ∧
      w' = { w with table := { w.table with
        rows := Function.update w.table.rows key (some { row with status := .pending }) } }
  | .write key row now, w, w' => w.table.rows key = none ∧
      w' = { w with table := { w.table with
        rows := Function.update w.table.rows key (some row)
        stamps := Function.update w.table.stamps key now } }

/-- Any rows, and no round has started. -/
def Unclaimed (w : OutboxState) : Prop := w.table.claims = (fun _ => []) ∧ w.rounds = fun _ => none

end OutboxState

abbrev OutboxPool := System.State Nat DispatchOp DispatchRet DispatchSettings OutboxState

/-- Rounds with leases greater than zero, and each of them a new one. -/
def outboxSystem (uuids : UuidFormat) (times : PgTimes) (debug : String → String) :
    System Nat DispatchOp DispatchRet DispatchSettings OutboxState OutboxAction where
  body settings := do
    let _ ← round uuids debug settings
    return ()
  exec i _ op reply w w' := w.exec times i op reply w'
  launch i settings w w' := w.rounds i = none ∧ settings.lease.isZero = false ∧
    w' = { w with rounds := Function.update w.rounds i (some settings) }
  leave _ _ w w' := w' = w
  env a w w' := w.act uuids a w'

theorem outboxSystem_obeys (uuids : UuidFormat) (times : PgTimes) (debug : String → String)
    (settings : DispatchSettings) :
    Obeys (roundProtocol uuids times settings) (fun _ _ => True) .fresh
      ((outboxSystem uuids times debug).body settings) :=
  (round_obeys debug settings).bind fun _ _ _ => trivial

end SisaMessaging.Runtime
