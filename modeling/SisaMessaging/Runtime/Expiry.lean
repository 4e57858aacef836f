/-
  Maintenance runs of the outbox next to application transactions, dispatchers and people.

  A row is in the partition that held its time when it was inserted, and its time is when its
  transaction started. A run counts a partition's pending and failed rows in one statement and
  expires it in a later one. Counting doesn't see the rows of an open transaction: one that commits
  in between leaves the partition with pending rows, and it expires all the same.
-/
import SisaMessaging.Postgres.Catalog
import SisaMessaging.Runtime.Fencing
import SisaMessaging.Runtime.MaintenanceProtocol
import SisaMessaging.Runtime.Retention

namespace SisaMessaging.Runtime

open SisaMessaging.Core SisaMessaging.Postgres SisaMessaging.Lib
open SisaMessaging.Postgres.Partitions (Catalog PartitionOp PartitionRet)
open SisaMessaging.Lib.Prog (Obeys Protocol)
open SisaMessaging.Lib.System (Keeps Reach Step update_eq_some)

/-! ## The tables -/

/-- The start of a UTC day, in microseconds since 1970. -/
def midnight (day : Date) : Int := day.days * secondsPerDay * 1000000

def HoldsTime (p : PartitionInfo) (time : Int) : Prop :=
  midnight p.fromDay ≤ time ∧ time < midnight p.toDay

instance (p : PartitionInfo) (time : Int) : Decidable (HoldsTime p time) :=
  inferInstanceAs (Decidable (_ ∧ _))

structure PartitionedOutbox where
  catalog : Catalog
  /-- The committed rows. -/
  table : OutboxTable
  /-- The partition that a row is in, also before it is committed; none for the default one. -/
  home : RowKey → Option String
  transactions : Nat → Option OpenTransaction
  /-- The run that holds the maintenance lock. -/
  lock : Option Nat
  /-- The partitions that this run counted no pending or failed rows in. -/
  clean : List String

namespace PartitionedOutbox

/-- Where a new row goes. -/
def route (s : PartitionedOutbox) (time : Int) : Option String :=
  (s.catalog.attached.find? fun p => decide (HoldsTime p time)).map PartitionInfo.name

/-- An open transaction inserted the row. -/
def Uncommitted (s : PartitionedOutbox) (key : RowKey) : Prop :=
  ∃ t start envelopes, s.transactions t = some ⟨start, envelopes⟩ ∧
    ∃ envelope ∈ envelopes, key = (start, envelope.id.uuid)

/-! ## What a run does -/

/-- What a count of the partition's rows of a status says of them. -/
def Counts (s : PartitionedOutbox) (name : String) (status : Postgres.Status) (count : Int) : Prop :=
  0 ≤ count ∧ (count = 0 ↔ ∀ key row, s.table.rows key = some row → s.home key = some name →
    row.status ≠ status)

/-- The partition leaves the outbox with its rows. -/
def without (s : PartitionedOutbox) (op : PartitionOp) (name : String) : PartitionedOutbox :=
  { s with
    catalog := (Catalog.answer .outbox op s.catalog).2
    table := { s.table with
      rows := fun key => if s.home key = some name then none else s.table.rows key } }

/-- An expiry, once no open transaction has a row in the partition, or its reply is an error. -/
def Expires (op : PartitionOp) (name : String) (reply : Except String Unit)
    (s s' : PartitionedOutbox) : Prop :=
  ((∀ key, s.Uncommitted key → s.home key ≠ some name) ∧ s' = s.without op name) ∨
    ((∃ error, reply = .error error) ∧ s' = s)

/-- What an operation of run `i` does. -/
def exec (i : Nat) (op : PartitionOp) (reply : PartitionRet op) (s s' : PartitionedOutbox) : Prop :=
  match op, reply with
  | .tryLock, .ok true => s.lock = none ∧ s' = { s with lock := some i, clean := [] }
  | .tryLock, _ => s' = s
  | .partitions, .ok rows =>
    rows = s.catalog.attached.map (fun p => (p.name, p.fromDay.toText, p.toDay.toText)) ∧
      s' = { s with clean := [] }
  | .partitions, .error _ => s' = s
  | .create name fromDay toDay, reply =>
    (name ∉ s.catalog.names ∧ s' = { s with
      catalog := s.catalog.attach (.new name fromDay toDay), clean := [] }) ∨
    ((∃ error, reply = .error error) ∧ s' = { s with clean := [] })
  | .default, _ | .count _, _ => s' = s
  | .countUnsent name, .ok (pending, failed) =>
    s.Counts name .pending pending ∧ s.Counts name .failed failed ∧
      s' = { s with clean := cleanAfter s.clean (.countUnsent name) (.ok (pending, failed)) }
  | .countUnsent _, .error _ => s' = s
  | .detach name, reply => Expires (.detach name) name reply s s'
  | .drop name, reply => Expires (.drop name) name reply s s'

end PartitionedOutbox

/-! ## What others do -/

inductive TableAction where
  /-- An application's transaction starts at `now`. -/
  | begin (transaction : Nat) (now : Int)
  /-- It inserts a row for an envelope. -/
  | insert (transaction : Nat) (envelope : Envelope)
  | commit (transaction : Nat)
  | rollback (transaction : Nat)
  /-- A dispatcher claims rows. -/
  | claim (round limit : Nat) (span now : Int) (keys : List RowKey)
  /-- A dispatcher marks rows. -/
  | mark (op : DispatchOp) (now : Int)
  /-- A person sets a row back to pending. -/
  | requeue (key : RowKey)

namespace PartitionedOutbox

def act (uuids : UuidFormat) (times : PgTimes) :
    TableAction → PartitionedOutbox → PartitionedOutbox → Prop
  | .begin t now, s, s' => s.transactions t = none ∧
      s' = { s with transactions := Function.update s.transactions t (some ⟨now, []⟩) }
  | .insert t envelope, s, s' => ∃ start envelopes, s.transactions t = some ⟨start, envelopes⟩ ∧
      s.table.rows (start, envelope.id.uuid) = none ∧ ¬s.Uncommitted (start, envelope.id.uuid) ∧
      s' = { s with
        transactions := Function.update s.transactions t (some ⟨start, envelopes ++ [envelope]⟩)
        home := Function.update s.home (start, envelope.id.uuid) (s.route start) }
  | .commit t, s, s' => ∃ start envelopes, s.transactions t = some ⟨start, envelopes⟩ ∧
      s' = { s with
        table := s.table.insert uuids envelopes start
        transactions := Function.update s.transactions t none }
  | .rollback t, s, s' => s.transactions t ≠ none ∧
      s' = { s with transactions := Function.update s.transactions t none }
  | .claim round limit span now keys, s, s' => ∃ table,
      ClaimDue round limit span now keys s.table table ∧ s' = { s with table }
  | .mark op now, s, s' => ∃ set table, op.sets = some set ∧
      MarkRows times op.marks set now s.table table ∧ s' = { s with table }
  | .requeue key, s, s' => ∃ row, s.table.rows key = some row ∧
      s' = { s with table := { s.table with
        rows := Function.update s.table.rows key (some { row with status := .pending }) } }

end PartitionedOutbox

/-- A run, with the day it starts on. -/
structure MaintenanceRun where
  settings : PartitionSettings
  today : Date

abbrev MaintenanceState :=
  System.State Nat PartitionOp PartitionRet MaintenanceRun PartitionedOutbox

abbrev MaintenanceLabel := System.Label Nat PartitionOp PartitionRet MaintenanceRun TableAction

/-- Any number of runs; the lock goes with its run. -/
def maintenance (uuids : UuidFormat) (times : PgTimes) (debug : String → String) :
    System Nat PartitionOp PartitionRet MaintenanceRun PartitionedOutbox TableAction where
  body run := do
    let _ ← maintain .outbox debug run.settings run.today
    return ()
  exec i _ op reply s s' := s.exec i op reply s'
  launch _ _ s s' := s' = s
  leave i _ s s' := s' = if s.lock = some i then { s with lock := none, clean := [] } else s
  env action s s' := s.act uuids times action s'

/-! ## Rows and their partitions -/

namespace PartitionedOutbox

/-- The partition that a row is in holds its time. -/
def InPlace (s : PartitionedOutbox) (key : RowKey) : Prop :=
  ∀ name, s.home key = some name → ∃ p ∈ s.catalog.attached, p.name = name ∧ HoldsTime p key.1

/-- Each row is in a partition that holds its time, or in the default one. -/
structure Placed (s : PartitionedOutbox) : Prop where
  named : ∀ p ∈ s.catalog.attached, ∀ q ∈ s.catalog.attached, p.name = q.name → p = q
  committed : ∀ key row, s.table.rows key = some row → s.InPlace key
  uncommitted : ∀ key, s.Uncommitted key → s.InPlace key

/-- Any partitions and rows, and no run. -/
def Idle (s : PartitionedOutbox) : Prop := s.Placed ∧ s.lock = none ∧ s.clean = []

/-- The partition's rows were written before the day `older`, and the committed ones are
    dispatched. -/
def Expirable (s : PartitionedOutbox) (name : String) (older : Date) : Prop :=
  (∀ key row, s.table.rows key = some row → s.home key = some name →
    key.1 < midnight older ∧ row.status = .dispatched) ∧
  ∀ key, s.Uncommitted key → s.home key = some name → key.1 < midnight older

end PartitionedOutbox

/-- No row becomes pending in a partition that a run counted to hold none: by the commit of its
    transaction, or by hand. -/
def NoneComes (s : MaintenanceState) : MaintenanceLabel → Prop
  | .env (.commit t) => ∀ start envelopes, s.shared.transactions t = some ⟨start, envelopes⟩ →
      ∀ envelope ∈ envelopes, ∀ name ∈ s.shared.clean,
        s.shared.home (start, envelope.id.uuid) ≠ some name
  | .env (.requeue key) => ∀ name ∈ s.shared.clean, s.shared.home key ≠ some name
  | _ => True

/-! ## The invariant -/

abbrev MaintenancePhases := Nat → Option (MaintenanceRun × MaintenancePhase)

/-- What a run that holds the lock knows is so: its listing of the partitions that are still there,
    and that the clean ones hold dispatched rows only. -/
structure Maintains (s : PartitionedOutbox) (γ : MaintenancePhases) : Prop where
  placed : s.Placed
  clean : ∀ name ∈ s.clean, ∀ key row, s.table.rows key = some row → s.home key = some name →
    row.status = .dispatched
  held : ∀ i run phase, γ i = some (run, phase) → phase.locked = true →
    s.lock = some i ∧ phase.clean = s.clean ∧ ∀ row ∈ phase.listed, ∀ p ∈ s.catalog.attached,
      p.name = row.1 → p.toDay.toText = row.2.2

namespace PartitionedOutbox

variable {s s' : PartitionedOutbox}

theorem InPlace.mono {key : RowKey} (h : s.InPlace key) (hhome : s'.home key = s.home key)
    (hattached : ∀ p ∈ s.catalog.attached, p ∈ s'.catalog.attached) : s'.InPlace key := by
  intro name hname
  obtain ⟨p, hp, hrest⟩ := h name (hhome ▸ hname)
  exact ⟨p, hattached p hp, hrest⟩

/-- Who holds the lock, and what it counted, moves no row. -/
theorem Placed.lock_clean (h : s.Placed) {lock : Option Nat} {clean : List String} :
    { s with lock, clean }.Placed :=
  ⟨h.named, h.committed, h.uncommitted⟩

/-- A partition of a new name keeps every row where it is. -/
theorem Placed.attach (h : s.Placed) {p : PartitionInfo} (hnew : p.name ∉ s.catalog.names) :
    Placed { s with catalog := s.catalog.attach p, clean := [] } where
  named q hq r hr hname := by
    have hother : ∀ q ∈ s.catalog.attached, q.name ≠ p.name := by
      intro q hq heq
      exact hnew (List.mem_append_left _ (heq ▸ List.mem_map_of_mem hq))
    rcases Catalog.mem_attach.mp hq with hqp | hq <;>
      rcases Catalog.mem_attach.mp hr with hrp | hr
    · exact hqp.trans hrp.symm
    · exact absurd (hname.symm.trans (congrArg _ hqp)) (hother r hr)
    · exact absurd (hname.trans (congrArg _ hrp)) (hother q hq)
    · exact h.named q hq r hr hname
  committed key row hr :=
    (h.committed key row hr).mono rfl fun q hq => Catalog.mem_attach.mpr (Or.inr hq)
  uncommitted key hu :=
    (h.uncommitted key hu).mono rfl fun q hq => Catalog.mem_attach.mpr (Or.inr hq)

theorem mem_without {op : PartitionOp} {name : String} (hop : op = .detach name ∨ op = .drop name)
    {p : PartitionInfo} :
    p ∈ (s.without op name).catalog.attached ↔ p ∈ s.catalog.attached ∧ p.name ≠ name := by
  rcases hop with rfl | rfl <;> simp [without, Catalog.answer, Catalog.remove]

/-- A row of the table without the partition is a row of another partition. -/
theorem rows_without {op : PartitionOp} {name : String} {key : RowKey} {row : Postgres.OutboxRow} :
    (s.without op name).table.rows key = some row ↔
      s.home key ≠ some name ∧ s.table.rows key = some row := by
  by_cases h : s.home key = some name <;> simp [without, h]

theorem Placed.without (h : s.Placed) {op : PartitionOp} {name : String}
    (hop : op = .detach name ∨ op = .drop name)
    (hfree : ∀ key, s.Uncommitted key → s.home key ≠ some name) :
    (s.without op name).Placed where
  named p hp q hq := h.named p ((mem_without hop).mp hp).1 q ((mem_without hop).mp hq).1
  committed key row hr := by
    obtain ⟨hhome, hr⟩ := rows_without.mp hr
    intro other hother
    obtain ⟨p, hp, rfl, hholds⟩ := h.committed key row hr other hother
    exact ⟨p, (mem_without hop).mpr ⟨hp, fun heq => hhome (heq ▸ hother)⟩, rfl, hholds⟩
  uncommitted key hu := by
    intro other hother
    obtain ⟨p, hp, rfl, hholds⟩ := h.uncommitted key hu other hother
    exact ⟨p, (mem_without hop).mpr ⟨hp, fun heq => hfree key hu (heq ▸ hother)⟩, rfl, hholds⟩

/-- A row that is counted neither pending nor failed is dispatched. -/
theorem Counts.dispatched {name : String} (hpending : s.Counts name .pending 0)
    (hfailed : s.Counts name .failed 0) {key : RowKey} {row : Postgres.OutboxRow}
    (hr : s.table.rows key = some row) (hhome : s.home key = some name) :
    row.status = .dispatched := by
  have hnotPending := hpending.2.mp rfl key row hr hhome
  have hnotFailed := hfailed.2.mp rfl key row hr hhome
  cases hstatus : row.status with
  | pending => exact absurd hstatus hnotPending
  | failed => exact absurd hstatus hnotFailed
  | dispatched => rfl

end PartitionedOutbox

namespace Maintains

variable {s s' : PartitionedOutbox} {γ : MaintenancePhases} {i : Nat}

/-- A step of the run that holds the lock: no other one does. -/
theorem holder (h : Maintains s γ) {run : MaintenanceRun} {phase phase' : MaintenancePhase}
    (hi : γ i = some (run, phase)) (hlocked : phase.locked = true) (hlock : s'.lock = s.lock)
    (hplaced : s'.Placed)
    (hclean : ∀ name ∈ s'.clean, ∀ key row, s'.table.rows key = some row →
      s'.home key = some name → row.status = .dispatched)
    (hsame : phase'.clean = s'.clean)
    (hlisted : ∀ row ∈ phase'.listed, ∀ p ∈ s'.catalog.attached, p.name = row.1 →
      p.toDay.toText = row.2.2) :
    Maintains s' (Function.update γ i (some (run, phase'))) where
  placed := hplaced
  clean := hclean
  held k run' phase'' hk hlocked' := by
    have hmine := (h.held i run phase hi hlocked).1
    rcases update_eq_some.mp hk with ⟨rfl, heq⟩ | ⟨hne, hk⟩
    · cases heq
      exact ⟨hlock.trans hmine, hsame, hlisted⟩
    · have hother := (h.held k run' phase'' hk hlocked').1
      exact absurd (Option.some.inj (hother.symm.trans hmine)) hne

/-- A step that shows the run nothing. -/
theorem same (h : Maintains s γ) {run : MaintenanceRun} {phase : MaintenancePhase}
    (hi : γ i = some (run, phase)) : Maintains s (Function.update γ i (some (run, phase))) := by
  rwa [← hi, Function.update_eq_self]

theorem expires (h : Maintains s γ) {run : MaintenanceRun} {phase : MaintenancePhase}
    (hi : γ i = some (run, phase)) (hlocked : phase.locked = true) {op : PartitionOp}
    {name : String} (hop : op = .detach name ∨ op = .drop name) {reply : Except String Unit}
    (he : PartitionedOutbox.Expires op name reply s s') :
    Maintains s' (Function.update γ i (some (run, phase))) := by
  obtain ⟨_, hsame, hlisted⟩ := h.held i run phase hi hlocked
  rcases he with ⟨hfree, rfl⟩ | ⟨_, rfl⟩
  · refine h.holder hi hlocked rfl (h.placed.without hop hfree) ?_ hsame ?_
    · intro other hother key row hr hhome
      exact h.clean other hother key row (PartitionedOutbox.rows_without.mp hr).2 hhome
    · intro row hrow p hp
      exact hlisted row hrow p ((PartitionedOutbox.mem_without hop).mp hp).1
  · exact h.same hi

theorem exec (h : Maintains s γ) {run : MaintenanceRun} {phase : MaintenancePhase}
    (hi : γ i = some (run, phase)) {op : PartitionOp} {reply : PartitionRet op}
    (ha : phase.Allowed run.settings run.today op) (he : s.exec i op reply s') :
    Maintains s' (Function.update γ i (some (run, phase.next op reply))) := by
  cases op with
  | tryLock =>
    match reply with
    | .error error =>
      obtain rfl := he
      exact h.same hi
    | .ok false =>
      obtain rfl := he
      exact h.same hi
    | .ok true =>
      obtain ⟨hfree, rfl⟩ := he
      refine ⟨h.placed.lock_clean, ?_, ?_⟩
      · exact fun name hname => absurd hname List.not_mem_nil
      · intro k run' phase' hk hlocked
        rcases update_eq_some.mp hk with ⟨rfl, heq⟩ | ⟨_, hk⟩
        · cases heq
          exact ⟨rfl, rfl, fun row hrow => absurd hrow List.not_mem_nil⟩
        · exact absurd (hfree.symm.trans (h.held k run' phase' hk hlocked).1) nofun
  | partitions =>
    cases reply with
    | error error =>
      obtain rfl := he
      exact h.same hi
    | ok rows =>
      obtain ⟨rfl, rfl⟩ := he
      refine h.holder hi ha rfl h.placed.lock_clean
        (fun name hname => absurd hname List.not_mem_nil) rfl ?_
      intro row hrow p hp hname
      obtain ⟨q, hq, rfl⟩ := List.mem_map.mp hrow
      rw [h.placed.named p hp q hq hname]
  | create name fromDay toDay =>
    rcases he with ⟨hnew, rfl⟩ | ⟨_, rfl⟩
    · exact h.holder hi ha rfl (h.placed.attach hnew)
        (fun name hname => absurd hname List.not_mem_nil) rfl
        (fun row hrow => absurd hrow List.not_mem_nil)
    · exact h.holder hi ha rfl h.placed.lock_clean
        (fun name hname => absurd hname List.not_mem_nil) rfl
        (fun row hrow => absurd hrow List.not_mem_nil)
  | default =>
    obtain rfl := he
    exact h.same hi
  | count table =>
    obtain rfl := he
    exact h.same hi
  | countUnsent name =>
    match reply with
    | .error error =>
      obtain rfl := he
      exact h.same hi
    | .ok (pending, failed) =>
      obtain ⟨hpending, hfailed, rfl⟩ := he
      obtain ⟨_, hsame, hlisted⟩ := h.held i run phase hi ha
      refine h.holder hi ha rfl h.placed.lock_clean ?_ ?_
        hlisted
      · intro other hother key row hr hhome
        dsimp only at hother
        rw [cleanAfter_countUnsent] at hother
        split at hother
        · rename_i hzero
          obtain ⟨rfl, rfl⟩ := hzero
          rcases List.mem_cons.mp hother with rfl | hother
          · exact hpending.dispatched hfailed hr hhome
          · exact h.clean other hother key row hr hhome
        · exact h.clean other hother key row hr hhome
      · show cleanAfter phase.clean _ _ = cleanAfter s.clean _ _
        rw [hsame]
  | detach name => exact h.expires hi ha.1 (Or.inl rfl) he
  | drop name => exact h.expires hi ha.1 (Or.inr rfl) he

/-- The committed rows change, and dispatched ones of clean partitions stay so. -/
theorem rows (h : Maintains s γ) {table : OutboxTable}
    (hrows : ∀ key row, table.rows key = some row → ∃ before, s.table.rows key = some before ∧
      ∀ name ∈ s.clean, s.home key = some name → before.status = .dispatched →
        row.status = .dispatched) : Maintains { s with table } γ where
  placed :=
    { named := h.placed.named
      committed := by
        intro key row hr
        obtain ⟨before, hbefore, _⟩ := hrows key row hr
        exact h.placed.committed key before hbefore
      uncommitted := h.placed.uncommitted }
  clean name hname key row hr hhome := by
    obtain ⟨before, hbefore, hstays⟩ := hrows key row hr
    exact hstays name hname hhome (h.clean name hname key before hbefore hhome)
  held := h.held

/-- Transactions that inserted no more rows. -/
theorem transactions (h : Maintains s γ) {transactions : Nat → Option OpenTransaction}
    (hfewer : ∀ key, { s with transactions }.Uncommitted key → s.Uncommitted key) :
    Maintains { s with transactions } γ where
  placed :=
    { named := h.placed.named
      committed := h.placed.committed
      uncommitted := fun key hu => h.placed.uncommitted key (hfewer key hu) }
  clean := h.clean
  held := h.held

theorem insert (h : Maintains s γ) {t : Nat} {start : Int} {envelopes : List Envelope}
    {envelope : Envelope} (ht : s.transactions t = some ⟨start, envelopes⟩)
    (hnew : s.table.rows (start, envelope.id.uuid) = none) :
    Maintains { s with
      transactions := Function.update s.transactions t (some ⟨start, envelopes ++ [envelope]⟩)
      home := Function.update s.home (start, envelope.id.uuid) (s.route start) } γ where
  placed :=
    { named := h.placed.named
      committed := by
        intro key row hr
        have hne : key ≠ (start, envelope.id.uuid) := by
          rintro rfl
          cases hnew.symm.trans hr
        exact (h.placed.committed key row hr).mono (Function.update_of_ne hne ..) fun p hp => hp
      uncommitted := by
        intro key hu
        by_cases heq : key = (start, envelope.id.uuid)
        · subst heq
          intro name hname
          have hroute : Function.update s.home (start, envelope.id.uuid) (s.route start)
              (start, envelope.id.uuid) = some name := hname
          rw [Function.update_self] at hroute
          obtain ⟨p, hp, rfl⟩ := Option.map_eq_some_iff.mp hroute
          have hholds := List.find?_some hp
          exact ⟨p, List.mem_of_find?_eq_some hp, rfl, of_decide_eq_true hholds⟩
        · have hold : s.Uncommitted key := by
            obtain ⟨t', start', envelopes', ht', e, he, hkey⟩ := hu
            rcases update_eq_some.mp ht' with ⟨rfl, hsome⟩ | ⟨_, ht'⟩
            · cases hsome
              rcases List.mem_append.mp he with he | he
              · exact ⟨t', start, envelopes, ht, e, he, hkey⟩
              · rw [List.mem_singleton.mp he] at hkey
                exact absurd hkey heq
            · exact ⟨t', start', envelopes', ht', e, he, hkey⟩
          exact (h.placed.uncommitted key hold).mono (Function.update_of_ne heq ..) fun p hp => hp }
  clean name hname key row hr hhome := by
    have hne : key ≠ (start, envelope.id.uuid) := by
      rintro rfl
      cases hnew.symm.trans hr
    exact h.clean name hname key row hr ((Function.update_of_ne hne ..).symm.trans hhome)
  held := h.held

/-- The rows of a transaction that commits were its own, or were there. -/
theorem rows_insert {table : OutboxTable} {uuids : UuidFormat} {envelopes : List Envelope}
    {start : Int} {key : RowKey} {row : Postgres.OutboxRow}
    (hr : (table.insert uuids envelopes start).rows key = some row) :
    (∃ envelope ∈ envelopes, key = (start, envelope.id.uuid)) ∨ table.rows key = some row := by
  simp only [OutboxTable.insert] at hr
  rcases Option.or_eq_some_iff.mp hr with hr | ⟨_, hr⟩
  · obtain ⟨envelope, hfind, _⟩ := Option.map_eq_some_iff.mp hr
    have hkey := List.find?_some hfind
    exact Or.inl ⟨envelope, List.mem_of_find?_eq_some hfind, (of_decide_eq_true hkey).symm⟩
  · exact Or.inr hr

theorem commit (h : Maintains s γ) {uuids : UuidFormat} {t : Nat} {start : Int}
    {envelopes : List Envelope} (ht : s.transactions t = some ⟨start, envelopes⟩)
    (hnone : ∀ envelope ∈ envelopes, ∀ name ∈ s.clean,
      s.home (start, envelope.id.uuid) ≠ some name) :
    Maintains { s with
      table := s.table.insert uuids envelopes start
      transactions := Function.update s.transactions t none } γ where
  placed :=
    { named := h.placed.named
      committed := by
        intro key row hr
        rcases rows_insert hr with ⟨envelope, he, rfl⟩ | hr
        · exact h.placed.uncommitted _ ⟨t, start, envelopes, ht, envelope, he, rfl⟩
        · exact h.placed.committed key row hr
      uncommitted := by
        rintro key ⟨t', start', envelopes', ht', he⟩
        rcases update_eq_some.mp ht' with ⟨_, hsome⟩ | ⟨_, ht'⟩
        · cases hsome
        · exact h.placed.uncommitted key ⟨t', start', envelopes', ht', he⟩ }
  clean name hname key row hr hhome := by
    rcases rows_insert hr with ⟨envelope, he, rfl⟩ | hr
    · exact absurd hhome (hnone envelope he name hname)
    · exact h.clean name hname key row hr hhome
  held := h.held

theorem act (h : Maintains s γ) {uuids : UuidFormat} {times : PgTimes} {action : TableAction}
    (he : s.act uuids times action s')
    (hc : ∀ procs, NoneComes ⟨procs, s⟩ (.env action)) : Maintains s' γ := by
  cases action with
  | begin t now =>
    obtain ⟨hnew, rfl⟩ := he
    refine h.transactions ?_
    rintro key ⟨t', start, envelopes, ht', e, hmem, hkey⟩
    rcases update_eq_some.mp ht' with ⟨_, hsome⟩ | ⟨_, ht'⟩
    · cases hsome
      cases hmem
    · exact ⟨t', start, envelopes, ht', e, hmem, hkey⟩
  | insert t envelope =>
    obtain ⟨start, envelopes, ht, hnew, _, rfl⟩ := he
    exact h.insert ht hnew
  | commit t =>
    obtain ⟨start, envelopes, ht, rfl⟩ := he
    exact h.commit ht (hc (fun _ => none) start envelopes ht)
  | rollback t =>
    obtain ⟨_, rfl⟩ := he
    refine h.transactions ?_
    rintro key ⟨t', start, envelopes, ht', hrest⟩
    rcases update_eq_some.mp ht' with ⟨_, hsome⟩ | ⟨_, ht'⟩
    · cases hsome
    · exact ⟨t', start, envelopes, ht', hrest⟩
  | claim round limit span now keys =>
    obtain ⟨table, hclaim, rfl⟩ := he
    refine h.rows fun key row hr => ?_
    rw [hclaim.eq] at hr
    obtain ⟨before, hbefore, rfl⟩ := OutboxTable.rows_claim.mp hr
    refine ⟨before, hbefore, fun _ _ _ hstatus => ?_⟩
    split <;> exact hstatus
  | mark op now =>
    obtain ⟨set, table, _, hmark, rfl⟩ := he
    refine h.rows fun key row hr => ?_
    rw [hmark.eq] at hr
    obtain ⟨before, hbefore, rfl⟩ := OutboxTable.rows_update.mp hr
    refine ⟨before, hbefore, fun _ _ _ hstatus => ?_⟩
    -- A mark finds pending rows only.
    have hmiss : Mark.anyHits times op.marks key before = false := by
      refine List.any_eq_false.mpr fun mark _ hhit => ?_
      exact absurd (hstatus.symm.trans (Mark.hits_iff.mp hhit).1) nofun
    rw [hmiss]
    exact hstatus
  | requeue key =>
    obtain ⟨row, hrow, rfl⟩ := he
    refine h.rows fun key' row' hr => ?_
    rcases update_eq_some.mp hr with ⟨rfl, hsome⟩ | ⟨_, hr⟩
    · refine ⟨row, hrow, fun name hname hhome => ?_⟩
      exact absurd hhome (hc (fun _ => none) name hname)
    · exact ⟨row', hr, fun _ _ _ hstatus => hstatus⟩

end Maintains

/-! ## Expiry -/

section Expiry

variable {uuids : UuidFormat} {times : PgTimes} {debug : String → String}

theorem maintenance_keeps : Keeps (maintenance uuids times debug) NoneComes
    (fun run => maintenanceProtocol run.settings run.today) (fun _ => .start) Maintains where
  body run := (maintain_obeys debug run.settings run.today).bind fun _ _ _ => trivial
  launch := by
    rintro s s' γ i run h _ rfl
    refine ⟨h.placed, h.clean, fun k run' phase hk hlocked => ?_⟩
    rcases update_eq_some.mp hk with ⟨_, heq⟩ | ⟨_, hk⟩
    · cases heq
      cases hlocked
    · exact h.held k run' phase hk hlocked
  exec := by
    rintro s s' γ i run rest phase op reply h _ hi ha he _
    exact ⟨trivial, h.exec hi ha he⟩
  leave := by
    rintro s s' γ i run phase h hi rfl
    split
    · rename_i hlock
      refine ⟨h.placed.lock_clean,
        fun name hname => absurd hname List.not_mem_nil, fun k run' phase' hk hlocked => ?_⟩
      rcases update_eq_some.mp hk with ⟨_, heq⟩ | ⟨hne, hk⟩
      · cases heq
      · have hother := (h.held k run' phase' hk hlocked).1
        exact absurd (Option.some.inj (hother.symm.trans hlock)) hne
    · refine ⟨h.placed, h.clean, fun k run' phase' hk hlocked => ?_⟩
      rcases update_eq_some.mp hk with ⟨_, heq⟩ | ⟨_, hk⟩
      · cases heq
      · exact h.held k run' phase' hk hlocked
  env := by
    rintro s s' γ action h he hc
    refine h.act he fun procs => ?_
    cases action <;> exact hc

/-- When a run is about to detach or drop a partition, all its rows are older than the retention,
    and the committed ones are dispatched: in every run in which none of its rows becomes pending
    between the count and the expiry. -/
theorem expiry_spares_unsent {s : MaintenanceState}
    (h : (maintenance uuids times debug).Reach PartitionedOutbox.Idle NoneComes s) {i : Nat}
    {run : MaintenanceRun} {op : PartitionOp}
    {next : PartitionRet op → Prog PartitionOp PartitionRet Unit}
    (hp : s.procs i = some ⟨run, .call op next⟩) {name : String}
    (hop : op = .detach name ∨ op = .drop name) :
    ∃ days, run.settings.retentionDays = some days ∧
      s.shared.Expirable name (run.today.addDays (-days)) := by
  have h0 : ∀ sh, PartitionedOutbox.Idle sh → Maintains sh fun _ => none := by
    rintro sh ⟨hplaced, _, hclean⟩
    refine ⟨hplaced, fun name hname => ?_, fun i run phase hi => by cases hi⟩
    rw [hclean] at hname
    cases hname
  obtain ⟨γ, ht, hm⟩ := h.tracked maintenance_keeps h0
  have hi := ht i
  rw [hp] at hi
  obtain ⟨phase, hγ, ha, _⟩ := System.tracked_some hi
  have hallowed : phase.locked = true ∧ name ∈ phase.clean ∧
      PastRetention run.settings run.today phase.listed name := by
    rcases hop with rfl | rfl <;> exact ha
  obtain ⟨hlocked, hclean, days, hdays, row, hrow, rfl, toDay, hparse, hle⟩ := hallowed
  obtain ⟨_, hsame, hlisted⟩ := hm.held i run phase hγ hlocked
  -- The partition is the listed one, so its rows are older than the retention.
  have old : ∀ key, s.shared.InPlace key → s.shared.home key = some row.1 →
      key.1 < midnight (run.today.addDays (-days)) := by
    intro key hplace hhome
    obtain ⟨p, hp, hname, hholds⟩ := hplace row.1 hhome
    have hto : p.toDay = toDay := by
      have hread := Date.parse_toText p.toDay
      rw [hlisted row hrow p hp hname, hparse] at hread
      exact (Except.ok.inj hread).symm
    have hdaysLe : p.toDay.days ≤ (run.today.addDays (-days)).days := by
      rw [hto]
      exact hle
    refine hholds.2.trans_le ?_
    simp only [midnight, secondsPerDay]
    omega
  refine ⟨days, hdays, fun key r hr hhome => ?_, fun key hu hhome => ?_⟩
  · exact ⟨old key (hm.placed.committed key r hr) hhome,
      hm.clean row.1 (hsame ▸ hclean) key r hr hhome⟩
  · exact old key (hm.placed.uncommitted key hu) hhome

/-! ## A partition a day -/

/-- A partition is detached on the day after its own. -/
def daily : PartitionSettings := ⟨.day, 0, some 0, .detach⟩

/-- The first of the migration's partitions. -/
def firstName : String := Partitions.partitionName .outbox (tenthOn 0)

theorem gaps_daily :
    Partitions.allGaps migrated.attached (daily.windows (tenthOn 1)) = [] := by decide +kernel

theorem expired_daily : expired daily (tenthOn 1) migrated =
    [.new firstName (tenthOn 0) (tenthOn 1)] := rfl

/-- A run on the migration's second day finds the first partition past the retention. -/
theorem interpret_daily (uuids : UuidFormat) (times : PgTimes) (debug : String → String) : ∃ c,
    Prog.interpret (Catalog.answer .outbox)
      ((maintenance uuids times debug).body ⟨daily, tenthOn 1⟩) migrated =
        ((), c, [.tryLock, .partitions, .default, .count "outbox_messages_default", .partitions,
          .countUnsent firstName, .detach firstName]) := by
  obtain ⟨result, hrun⟩ := interpret_maintain debug daily (tenthOn 1) migrated_sound
  have hfilled : filled .outbox daily (tenthOn 1) migrated = migrated := by
    rw [filled, gaps_daily]
    rfl
  rw [hfilled, gaps_daily, expired_daily] at hrun
  exact ⟨_, Prog.interpret_bind _ _ hrun⟩

variable (uuids times debug) in
/-- Such a run is the first one, and there are only dispatched rows in the partition: it comes to
    where it detaches the partition. -/
theorem daily_run {C : MaintenanceState → MaintenanceLabel → Prop}
    (hlaunch : ∀ s i run, C s (.launch i run)) (hexec : ∀ s i op reply, C s (.exec i op reply))
    {s : PartitionedOutbox}
    (h : (maintenance uuids times debug).Reach PartitionedOutbox.Idle C ⟨fun _ => none, s⟩)
    (hcatalog : s.catalog = migrated) (hlock : s.lock = none)
    (hsent : ∀ key row, s.table.rows key = some row → s.home key = some firstName →
      row.status = .dispatched) : ∃ procs next,
    (maintenance uuids times debug).Reach PartitionedOutbox.Idle C
      ⟨procs, { s with lock := some 0, clean := [firstName] }⟩ ∧
    procs 0 = some ⟨⟨daily, tenthOn 1⟩, .call (.detach firstName) next⟩ := by
  -- The catalog's listing, which isn't computed here.
  obtain ⟨rows, hrows⟩ : ∃ rows, rows = migrated.attached.map fun p =>
    (p.name, p.fromDay.toText, p.toDay.toText) := ⟨_, rfl⟩
  have hlisted : Catalog.answer .outbox .partitions migrated = (.ok rows, migrated) := by
    rw [hrows]
    rfl
  have hdefault : Catalog.answer .outbox .default migrated =
      (.ok (some "outbox_messages_default"), migrated) := rfl
  rw [← hcatalog] at hrows
  -- No pending and no failed rows are counted.
  have hcount : ∀ status, status ≠ .dispatched → s.Counts firstName status 0 :=
    fun status hne => ⟨le_refl _, iff_of_true rfl fun key row hr hhome heq =>
      hne (heq.symm.trans (hsent key row hr hhome))⟩
  obtain ⟨c, hrun⟩ := interpret_daily uuids times debug
  have h0 := h.launch 0 ⟨daily, tenthOn 1⟩ rfl rfl (hlaunch ..)
  obtain ⟨next, hnext, hrun⟩ := Prog.call_of_interpret rfl hrun
  rw [hnext] at h0
  have h1 := h0.exec 0 .tryLock (.ok true) rfl ⟨hlock, rfl⟩ (hexec ..)
  obtain ⟨next, hnext, hrun⟩ := Prog.call_of_interpret hlisted hrun
  rw [hnext] at h1
  have h2 := h1.exec 0 .partitions (.ok rows) rfl ⟨hrows, rfl⟩ (hexec ..)
  obtain ⟨next, hnext, hrun⟩ := Prog.call_of_interpret hdefault hrun
  rw [hnext] at h2
  have h3 := h2.exec 0 .default (.ok (some "outbox_messages_default")) rfl rfl (hexec ..)
  obtain ⟨next, hnext, hrun⟩ := Prog.call_of_interpret rfl hrun
  rw [hnext] at h3
  have h4 := h3.exec 0 (.count "outbox_messages_default") (.ok 0) rfl rfl (hexec ..)
  obtain ⟨next, hnext, hrun⟩ := Prog.call_of_interpret hlisted hrun
  rw [hnext] at h4
  have h5 := h4.exec 0 .partitions (.ok rows) rfl ⟨hrows, rfl⟩ (hexec ..)
  obtain ⟨next, hnext, hrun⟩ := Prog.call_of_interpret rfl hrun
  rw [hnext] at h5
  have h6 := h5.exec 0 (.countUnsent firstName) (.ok (0, 0)) rfl
    ⟨hcount .pending nofun, hcount .failed nofun, rfl⟩ (hexec ..)
  obtain ⟨next, hnext, _⟩ := Prog.call_of_interpret rfl hrun
  rw [hnext] at h6
  exact ⟨_, next, h6, Function.update_self ..⟩

/-- A row written at the start of the first partition's day. -/
def sentKey : RowKey := (midnight (tenthOn 0), 7)

/-- A row of a transaction that started in the day's last microsecond. -/
def lateKey : RowKey := (midnight (tenthOn 1) - 1, 7)

/-- The migration's partitions with one dispatched row. -/
def oneSent : PartitionedOutbox where
  catalog := migrated
  table := ⟨fun key => if key = sentKey then some (paidRow.setDispatched sentKey.1) else none,
    fun _ => sentKey.1, fun _ => []⟩
  home key := if key = sentKey then some firstName else none
  transactions _ := none
  lock := none
  clean := []

theorem oneSent_idle : oneSent.Idle := by
  have hnamed := fun p hp q hq => migrated_sound.eq_of_name (p := p) (q := q) hp hq
  have hplace : ∀ key, oneSent.InPlace key := by
    intro key name hname
    simp only [oneSent] at hname
    split at hname
    · rename_i hkey
      cases hname
      refine ⟨.new firstName (tenthOn 0) (tenthOn 1), ?_, rfl, ?_⟩
      · exact List.mem_map.mpr ⟨0, List.mem_range.mpr (by decide), rfl⟩
      · rw [hkey]
        decide +kernel
    · cases hname
  exact ⟨⟨hnamed, fun key _ _ => hplace key, fun key _ => hplace key⟩, rfl, rfl⟩

theorem oneSent_sent {key : RowKey} {row : Postgres.OutboxRow}
    (hr : oneSent.table.rows key = some row) : row.status = .dispatched := by
  simp only [oneSent] at hr
  split at hr
  · cases hr
    rfl
  · cases hr

theorem expiry_spares_unsent_daily : ∃ s : MaintenanceState,
    s.shared.home sentKey = some firstName ∧ ∃ days, daily.retentionDays = some days ∧
      s.shared.Expirable firstName ((tenthOn 1).addDays (-days)) := by
  obtain ⟨procs, next, h, hp⟩ := daily_run .rfc9562 .utc id (C := NoneComes)
    (fun _ _ _ => trivial) (fun _ _ _ _ => trivial) (.init oneSent_idle) rfl rfl
    fun _ _ hr _ => oneSent_sent hr
  exact ⟨_, rfl, expiry_spares_unsent h hp (Or.inl rfl)⟩

/-- A transaction has started in the partition's day, -/
def begun : PartitionedOutbox :=
  { oneSent with
    transactions := Function.update oneSent.transactions 0 (some ⟨lateKey.1, []⟩) }

/-- and inserted a row. -/
def late : PartitionedOutbox :=
  { begun with
    transactions := Function.update begun.transactions 0 (some ⟨lateKey.1, [basketPaid]⟩)
    home := Function.update begun.home lateKey (begun.route lateKey.1) }

theorem late_reach : (maintenance .rfc9562 .utc id).Reach PartitionedOutbox.Idle
    (fun _ _ => True) ⟨fun _ => none, late⟩ := by
  have h0 : (maintenance .rfc9562 .utc id).Reach PartitionedOutbox.Idle (fun _ _ => True)
      ⟨fun _ => none, oneSent⟩ := .init oneSent_idle
  have h1 := h0.env (.begin 0 lateKey.1) ⟨rfl, rfl⟩ trivial
  have hfree : ¬begun.Uncommitted lateKey := by
    rintro ⟨t, start, envelopes, ht, envelope, he, _⟩
    rcases update_eq_some.mp ht with ⟨_, hsome⟩ | ⟨_, hnone⟩
    · cases hsome
      cases he
    · cases hnone
  have hnew : begun.table.rows lateKey = none := by decide +kernel
  exact h1.env (.insert 0 basketPaid) ⟨lateKey.1, [], rfl, hnew, hfree, rfl⟩ trivial

/-- When the transaction commits between the count and the expiry, its row is pending in the
    partition that is detached. -/
theorem not_expiry_spares_unsent : ¬∀ s : MaintenanceState,
    (maintenance .rfc9562 .utc id).Reach PartitionedOutbox.Idle (fun _ _ => True) s →
    ∀ i run op next name, s.procs i = some ⟨run, .call op next⟩ →
      op = .detach name ∨ op = .drop name →
      ∃ days, run.settings.retentionDays = some days ∧
        s.shared.Expirable name (run.today.addDays (-days)) := by
  intro hall
  obtain ⟨procs, next, h, hp⟩ := daily_run _ _ _ (fun _ _ _ => trivial)
    (fun _ _ _ _ => trivial) late_reach rfl rfl fun _ _ hr _ => oneSent_sent hr
  have hcommit := h.env (.commit 0) ⟨lateKey.1, [basketPaid], rfl, rfl⟩ trivial
  obtain ⟨days, _, hrows, _⟩ := hall _ hcommit 0 _ _ next firstName hp (Or.inl rfl)
  have hhome : late.home lateKey = some firstName := by decide +kernel
  have hstatus := (hrows lateKey (.insert .rfc9562 basketPaid lateKey.1) rfl hhome).2
  cases hstatus

end Expiry

end SisaMessaging.Runtime
