/-
  The rows of `outbox_messages`, and what the dispatcher's statements do to them.

  A statement is one atomic step at a time `now` of the database's clock, as every statement of the
  dispatcher is committed on its own. It runs only once the clock has advanced past the last
  statement on each row it changes (`Advanced`). Beside the rows the table keeps who claimed each of
  them and when it last changed, which no statement reads.
-/
import SisaMessaging.Lib.Lease
import SisaMessaging.Postgres.Outbox

namespace SisaMessaging.Postgres

open SisaMessaging.Core SisaMessaging.Lib

inductive Status where
  | pending | dispatched | failed
  deriving DecidableEq

/-- A row, without its key. `attributes` is `none` where something other than this crate wrote what
    isn't an object. -/
structure OutboxRow where
  columns : Columns (Option JsonObject)
  status : Status
  availableAt : Int
  attempts : Int
  lastError : Option String
  dispatchedAt : Option Int

namespace OutboxRow

/-- The row that `insert` writes for an envelope, in a transaction that started at `now`. -/
def insert (uuids : UuidFormat) (envelope : Envelope) (now : Int) : OutboxRow where
  columns :=
    { Postgres.columns uuids envelope with
      attributes := some (Postgres.columns uuids envelope).attributes }
  status := .pending
  availableAt := now
  attempts := 0
  lastError := none
  dispatchedAt := none

/-! ## What the marks set -/

def failUnreadable (error : String) (_now : Int) (row : OutboxRow) : OutboxRow :=
  { row with status := .failed, attempts := row.attempts + 1, lastError := some error }

def setDispatched (now : Int) (row : OutboxRow) : OutboxRow :=
  { row with status := .dispatched, dispatchedAt := some now }

def putBack (error : String) (delay : Int) (now : Int) (row : OutboxRow) : OutboxRow :=
  { row with attempts := row.attempts + 1, lastError := some error, availableAt := now + delay }

def setFailed (error : String) (now : Int) (row : OutboxRow) : OutboxRow :=
  { row with
    status := .failed, attempts := row.attempts + 1, lastError := some error, availableAt := now }

end OutboxRow

namespace DispatchOp

/-- The marks of a statement. -/
def marks : DispatchOp → List Mark
  | .failUnreadable mark _ | .putBack mark _ _ | .setFailed mark _ => [mark]
  | .setDispatched marks => marks
  | _ => []

/-- What a mark sets. None for what isn't a mark, and for a delay that is no `interval`. -/
def sets : DispatchOp → Option (Int → OutboxRow → OutboxRow)
  | .failUnreadable _ error => some (.failUnreadable error)
  | .setDispatched _ => some .setDispatched
  | .putBack _ error delay => (interval delay).map (.putBack error)
  | .setFailed _ error => some (.setFailed error)
  | _ => none

/-- A mark sets a due time from now on, or none. -/
theorem sets_availableAt {op : DispatchOp} {set : Int → OutboxRow → OutboxRow}
    (h : op.sets = some set) (now : Int) (row : OutboxRow) :
    (set now row).availableAt = row.availableAt ∨ now ≤ (set now row).availableAt := by
  cases op with
  | failUnreadable mark error =>
    cases h
    exact Or.inl rfl
  | setDispatched marks =>
    cases h
    exact Or.inl rfl
  | putBack mark error delay =>
    obtain ⟨span, hspan, rfl⟩ := Option.map_eq_some_iff.mp h
    exact Or.inr (Int.le_add_of_nonneg_right (interval_nonneg hspan))
  | setFailed mark error =>
    cases h
    exact Or.inr (Int.le_refl now)
  | _ => cases h

end DispatchOp

/-! ## Statements -/

structure OutboxTable where
  rows : RowKey → Option OutboxRow
  /-- When the last statement that changed a row ran. -/
  stamps : RowKey → Int
  /-- The rounds that claimed a row, oldest first. -/
  claims : RowKey → List Nat

namespace OutboxTable

/-- A row's lease: its due time, held by the round that claimed it last. -/
def lease (table : OutboxTable) (key : RowKey) (row : OutboxRow) : Lease Nat Int :=
  ⟨row.availableAt, table.stamps key, table.claims key⟩

/-- An `UPDATE` at `now` of the rows that it hits. -/
def update (table : OutboxTable) (hit : RowKey → OutboxRow → Bool) (set : OutboxRow → OutboxRow)
    (now : Int) : OutboxTable :=
  { table with
    rows := fun key => (table.rows key).map fun row => if hit key row then set row else row
    stamps := fun key => if (table.rows key).any (hit key) then now else table.stamps key }

/-- At `now` the clock has advanced past the last statement on each row that is hit. -/
def Advanced (table : OutboxTable) (hit : RowKey → OutboxRow → Bool) (now : Int) : Prop :=
  ∀ key row, table.rows key = some row → hit key row = true → table.stamps key < now

/-- The update of a claim by `round`. -/
def claim (table : OutboxTable) (round : Nat) (keys : List RowKey) (now due : Int) : OutboxTable :=
  { table.update (fun key _ => keys.contains key) (fun row => { row with availableAt := due }) now with
    claims := fun key =>
      if keys.contains key then table.claims key ++ [round] else table.claims key }

/-- The rows of a committed transaction that started at `now`. -/
def insert (table : OutboxTable) (uuids : UuidFormat) (envelopes : List Envelope) (now : Int) :
    OutboxTable :=
  { table with
    rows := fun key => ((envelopes.find? fun envelope => (now, envelope.id.uuid) = key).map
      fun envelope => .insert uuids envelope now).or (table.rows key)
    stamps := fun key => if envelopes.any (fun envelope => (now, envelope.id.uuid) = key) then now
      else table.stamps key }

end OutboxTable

/-- A row as a claim selects it, when its attributes decode. -/
def claimedRow (times : PgTimes) (key : RowKey) (row : OutboxRow) : Option ClaimedRow :=
  row.columns.attributes.map fun attributes =>
    { columns := { row.columns with id := key.2, attributes }
      createdAt := times.json key.1
      attempts := row.attempts
      availableAt := times.json row.availableAt }

/-- `claim`'s first statement by `round`: up to `limit` pending rows that are due, by id. Rows that
    another statement has locked are left out, so any such rows may be the ones. -/
structure ClaimDue (round limit : Nat) (span now : Int) (keys : List RowKey)
    (table table' : OutboxTable) : Prop where
  nodup : keys.Nodup
  limit : keys.length ≤ limit
  ordered : keys.Pairwise fun key other => key.2 ≤ other.2
  due : ∀ key ∈ keys, ∃ row, table.rows key = some row ∧ row.status = .pending ∧
    row.availableAt ≤ now
  advanced : table.Advanced (fun key _ => keys.contains key) now
  eq : table' = table.claim round keys now (now + span)

/-- The mark finds the row: its key, pending, with the due time of the mark's claim. -/
def Mark.hits (times : PgTimes) (mark : Mark) (key : RowKey) (row : OutboxRow) : Bool :=
  row.status == .pending && mark.key times == some key &&
    times.cast mark.leasedUntil == some row.availableAt

def Mark.anyHits (times : PgTimes) (marks : List Mark) (key : RowKey) (row : OutboxRow) : Bool :=
  marks.any fun mark => mark.hits times key row

/-- A statement that marks rows. -/
structure MarkRows (times : PgTimes) (marks : List Mark) (set : Int → OutboxRow → OutboxRow)
    (now : Int) (table table' : OutboxTable) : Prop where
  /-- Every text is a time. -/
  reads : ∀ mark ∈ marks, mark.key times ≠ none ∧ times.cast mark.leasedUntil ≠ none
  /-- `attempts` stays an `integer`. -/
  integer : ∀ key row, table.rows key = some row → Mark.anyHits times marks key row = true →
    (set now row).attempts ≤ max row.attempts (2 ^ 31 - 1)
  advanced : table.Advanced (Mark.anyHits times marks) now
  eq : table' = table.update (Mark.anyHits times marks) (set now) now

/-! ## What the statements change -/

namespace OutboxTable

variable {table : OutboxTable} {key : RowKey} {row : OutboxRow}

theorem rows_update {hit : RowKey → OutboxRow → Bool} {set : OutboxRow → OutboxRow} {now : Int} :
    (table.update hit set now).rows key = some row ↔
      ∃ before, table.rows key = some before ∧ (if hit key before then set before else before) = row := by
  simp [update]

theorem lease_update_hit {hit : RowKey → OutboxRow → Bool} {set : OutboxRow → OutboxRow} {now : Int}
    (hr : table.rows key = some row) (h : hit key row = true) :
    (table.update hit set now).lease key (set row) =
      (table.lease key row).change now (set row).availableAt := by
  simp [lease, update, Lease.change, hr, h]

theorem lease_update_other {hit : RowKey → OutboxRow → Bool} {set : OutboxRow → OutboxRow}
    {now : Int} (hr : table.rows key = some row) (h : hit key row = false) :
    (table.update hit set now).lease key row = table.lease key row := by
  simp [lease, update, hr, h]

theorem lease_claim_mem {round : Nat} {keys : List RowKey} {now due : Int}
    (hr : table.rows key = some row) (h : key ∈ keys) :
    (table.claim round keys now due).lease key { row with availableAt := due } =
      (table.lease key row).take round now due := by
  simp [lease, claim, update, Lease.take, hr, h]

theorem lease_claim_other {round : Nat} {keys : List RowKey} {now due : Int}
    (hr : table.rows key = some row) (h : key ∉ keys) :
    (table.claim round keys now due).lease key row = table.lease key row := by
  simp [lease, claim, update, hr, h]

theorem rows_claim {round : Nat} {keys : List RowKey} {now due : Int} :
    (table.claim round keys now due).rows key = some row ↔ ∃ before, table.rows key = some before ∧
      (if key ∈ keys then { before with availableAt := due } else before) = row := by
  simp [claim, rows_update]

section Insert

variable {uuids : UuidFormat} {envelopes : List Envelope} {now : Int}

/-- New rows leave the others. -/
theorem not_inserted (hf : ∀ envelope ∈ envelopes, table.rows (now, envelope.id.uuid) = none)
    (hr : table.rows key = some row) :
    ∀ envelope ∈ envelopes, (now, envelope.id.uuid) ≠ key := by
  rintro envelope hm rfl
  rw [hf envelope hm] at hr
  cases hr

theorem find_insert_of_some (hf : ∀ envelope ∈ envelopes, table.rows (now, envelope.id.uuid) = none)
    (hr : table.rows key = some row) :
    (envelopes.find? fun envelope => (now, envelope.id.uuid) = key) = none :=
  List.find?_eq_none.mpr fun envelope hm => by simp [not_inserted hf hr envelope hm]

theorem rows_insert_of_some (hf : ∀ envelope ∈ envelopes, table.rows (now, envelope.id.uuid) = none)
    (hr : table.rows key = some row) : (table.insert uuids envelopes now).rows key = some row := by
  simp [insert, find_insert_of_some hf hr, hr]

theorem lease_insert_of_some (hf : ∀ envelope ∈ envelopes, table.rows (now, envelope.id.uuid) = none)
    (hr : table.rows key = some row) :
    (table.insert uuids envelopes now).lease key row = table.lease key row := by
  have hany : (envelopes.any fun envelope => (now, envelope.id.uuid) = key) = false :=
    List.any_eq_false.mpr fun envelope hm => by simp [not_inserted hf hr envelope hm]
  simp only [lease, insert, hany]
  rfl

end Insert

end OutboxTable

theorem Mark.hits_iff {times : PgTimes} {mark : Mark} {key : RowKey} {row : OutboxRow} :
    mark.hits times key row = true ↔ row.status = .pending ∧ mark.key times = some key ∧
      times.cast mark.leasedUntil = some row.availableAt := by
  simp [hits, and_assoc]

/-! ## Marks of a claimed row -/

/-- The mark of a row, in the texts of the claim that leased it until `token`. -/
def markAt (times : PgTimes) (key : RowKey) (token : Int) : Mark :=
  ⟨times.json key.1, key.2, times.json token⟩

theorem key_markAt (times : PgTimes) (key : RowKey) (token : Int) :
    (markAt times key token).key times = some key := by
  simp [Mark.key, markAt, times.cast_json]

theorem claimedRow_eq {times : PgTimes} {key : RowKey} {row : OutboxRow} {claimed : ClaimedRow}
    (h : claimedRow times key row = some claimed) :
    claimed.mark = markAt times key row.availableAt ∧ claimed.attempts = row.attempts := by
  obtain ⟨attributes, _, rfl⟩ := Option.map_eq_some_iff.mp h
  exact ⟨rfl, rfl⟩

end SisaMessaging.Postgres
