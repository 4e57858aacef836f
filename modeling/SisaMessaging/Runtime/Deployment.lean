/-
  A whole deployment: applications and handlers insert messages into one outbox, dispatchers publish
  them, and the broker delivers them to endpoints with inboxes, whose handlers insert more.

  `deployment` is the outbox's pool beside the consumers', on one database and one broker. A delivery's
  transaction is one of the outbox's (`Mirrors`), and what a dispatcher publishes the broker puts on
  the endpoints, unless it has a message with this id already (`Links`). It's assumed that the broker
  keeps a message on an endpoint until a delivery settles it.

  `Coupled` is the invariant over both: an open transaction holds the same rows on both sides, and each
  row goes back to an application's (`Rooted`).
-/
import Mathlib.Data.List.Nodup
import SisaMessaging.Runtime.Consumers
import SisaMessaging.Runtime.OutboxRuns

namespace SisaMessaging.Runtime

open SisaMessaging.Core SisaMessaging.Lib SisaMessaging.Postgres
open SisaMessaging.Lib.System (Acts Label Step update_eq_some)

variable {Msg : Type}

/-! ## The two pools -/

/-- What a step of the deliveries does to the outbox, by what it does to their transactions. -/
inductive Inbox.Mirrors (s s' : Inbox Msg) : List OutboxAction → Prop where
  | same : s'.transactions = s.transactions → s'.rows = s.rows → Mirrors s s' []
  | began (t : Transaction) (i : Nat) (now : Int) : s.transactions t = none →
      s' = s.setTransaction t i .running → Mirrors s s' [.begin t.id now]
  | wrote (t : Transaction) (i : Nat) (envelopes : List Envelope) : s.Running t →
      s' = s.addRows t i envelopes → Mirrors s s' (envelopes.map (.insert t.id))
  | open (t : Transaction) (i : Nat) (status : Status) : s.Open t →
      status = .running ∨ status = .unresolved → s' = s.setTransaction t i status → Mirrors s s' []
  | committed (t : Transaction) (i : Nat) : s.Open t → s' = s.setTransaction t i .committed →
      Mirrors s s' [.commit t.id]
  | rolledBack (t : Transaction) (i : Nat) : s.Open t → s' = s.setTransaction t i .rolledBack →
      Mirrors s s' [.rollback t.id]

/-- What a step at the outbox does to the broker. The transactions of applications are their own. -/
def Consumers.Links (c : Consumers Msg) :
    Label Nat DispatchOp DispatchRet DispatchSettings OutboxAction → List ConsumerAction → Prop
  | .exec _ (.publish record _) reply, actions => actions = [.store record.envelope] ∨
      (actions = [] ∧
        (reply ≠ .accepted ∨ ∃ stored ∈ c.stream, stored.id = record.envelope.id))
  | .env (.begin t _), actions | .env (.insert t _), actions | .env (.commit t), actions
  | .env (.rollback t), actions => actions = [] ∧ c.tables.transactions ⟨t⟩ = none
  | _, actions => actions = []

/-- The endpoints write their publishes to the outbox. -/
def WriteOutbox (_ : ConsumerPool Msg) :
    Label Nat (Op Msg) (Ret Msg) (Consumed Msg) ConsumerAction → Prop
  | .launch _ consumed => consumed.job.outbox = .store
  | _ => True

def deployment (Msg : Type) (uuids : UuidFormat) (times : PgTimes) (debug : String → String)
    (endpoints : List EndpointSpec) :
    Beside Nat DispatchOp DispatchRet DispatchSettings OutboxState OutboxAction
      Nat (Op Msg) (Ret Msg) (Consumed Msg) (Consumers Msg) ConsumerAction where
  first := outboxSystem uuids times debug
  second := consumers Msg endpoints
  allowed₁ := Supported times
  allowed₂ := WriteOutbox
  links₁ _ l _ c actions := c.Links l actions
  links₂ c l c' _ actions := (∀ envelope, l ≠ .env (.store envelope)) ∧
    c.tables.Mirrors c'.tables actions

/-- A step of the outbox's pool, or of the consumers'. -/
abbrev DeploymentLabel (Msg : Type) :=
  Label Nat DispatchOp DispatchRet DispatchSettings OutboxAction ⊕
    Label Nat (Op Msg) (Ret Msg) (Consumed Msg) ConsumerAction

/-! ## What they are for -/

/-- The row is of the envelope. -/
def OutboxState.HasRow (w : OutboxState) (key : RowKey) (envelope : Envelope) : Prop :=
  w.table.rows key ≠ none ∧ w.inserted key = some envelope

/-- Delivery `i` is one of the envelope to the endpoint, and committed. Its handler returned, and
    published this. -/
def Inbox.HandledBy (s : Inbox Msg) (i : Nat) (endpoint : String) (envelope : Envelope)
    (published : List Envelope) : Prop :=
  ∃ job, s.deliveries i = some job ∧ job.name = endpoint ∧ job.delivery.envelope = envelope ∧
    s.OwnReceiptCommitted i ∧ ⟨i, published, true⟩ ∈ s.runs

def Inbox.Handled (s : Inbox Msg) (endpoint : String) (envelope : Envelope)
    (published : List Envelope) : Prop :=
  ∃ i, s.HandledBy i endpoint envelope published

/-- The row is there, as `insert` writes the envelope. -/
def OutboxState.Row (uuids : UuidFormat) (w : OutboxState) (key : RowKey) (envelope : Envelope) :
    Prop :=
  ∃ row, w.table.rows key = some row ∧
    row.columns = (Postgres.OutboxRow.insert uuids envelope key.1).columns

/-- The message goes back to the root, a row that an application inserted: through messages that
    handlers published. -/
inductive Rooted (trace : List (DeploymentLabel Msg)) (w : OutboxState) (s : Inbox Msg)
    (root : Envelope) : Envelope → Prop where
  | applied (t : Nat) (key : RowKey) : .inl (.env (.insert t root)) ∈ trace → w.HasRow key root →
      Rooted trace w s root root
  | answer {parent child : Envelope} {published : List Envelope} (endpoint : String) :
      Rooted trace w s root parent → s.Handled endpoint parent published → child ∈ published →
      Caused parent child → Rooted trace w s root child

/-! ## Rows of the outbox -/

namespace OutboxState

variable {uuids : UuidFormat} {times : PgTimes} {w w' : OutboxState} {key : RowKey}
  {envelope : Envelope}

/-- The rows and the transactions stay. -/
structure Kept (w w' : OutboxState) : Prop where
  rows : ∀ key, w'.table.rows key = none ↔ w.table.rows key = none
  inserted : w'.inserted = w.inserted
  transactions : w'.transactions = w.transactions

theorem Kept.refl (w : OutboxState) : Kept w w := ⟨fun _ => Iff.rfl, rfl, rfl⟩

theorem Kept.hasRow (h : Kept w w') : w'.HasRow key envelope ↔ w.HasRow key envelope := by
  unfold HasRow
  rw [h.inserted, ne_eq, ne_eq, h.rows key]

theorem Claims.kept {i limit : Nat} {lease : Duration} {reply : Except String (List ClaimedRow)}
    (h : w.Claims times i limit lease reply w') : Kept w w' ∧ w'.publications = w.publications := by
  rcases h with ⟨span, now, keys, table, _, hclaim, rfl, _⟩ | ⟨_, rfl⟩
  · refine ⟨⟨fun key => ?_, rfl, rfl⟩, rfl⟩
    simp [hclaim.eq, OutboxTable.claim, OutboxTable.update]
  · exact ⟨.refl w', rfl⟩

theorem Marks.kept {op : DispatchOp} {reply : Except String Unit} (h : w.Marks times op reply w') :
    Kept w w' ∧ w'.publications = w.publications := by
  rcases h with ⟨set, now, table, _, hmark, rfl⟩ | ⟨_, rfl⟩
  · refine ⟨⟨fun key => ?_, rfl, rfl⟩, rfl⟩
    simp [hmark.eq, OutboxTable.update]
  · exact ⟨.refl w', rfl⟩

/-- A round's operation keeps them. -/
theorem exec_kept {i : Nat} {op : DispatchOp} {reply : DispatchRet op}
    (h : w.exec times i op reply w') : Kept w w' := by
  cases op with
  | claimDue limit lease => exact (Claims.kept h).1
  | failUnreadable mark error => exact (Marks.kept h).1
  | setDispatched marks => exact (Marks.kept h).1
  | putBack mark error delay => exact (Marks.kept h).1
  | setFailed mark error => exact (Marks.kept h).1
  | publish record deadline =>
    rw [show w' = _ from h]
    exact ⟨fun _ => Iff.rfl, rfl, rfl⟩
  | now | stopping =>
    obtain rfl : w' = w := h
    exact .refl w'

/-- Only a publish is logged. -/
theorem exec_publications {i : Nat} {op : DispatchOp} {reply : DispatchRet op}
    (h : w.exec times i op reply w') (hop : ∀ record deadline, op ≠ .publish record deadline) :
    w'.publications = w.publications := by
  cases op with
  | claimDue limit lease => exact (Claims.kept h).2
  | failUnreadable mark error => exact (Marks.kept h).2
  | setDispatched marks => exact (Marks.kept h).2
  | putBack mark error delay => exact (Marks.kept h).2
  | setFailed mark error => exact (Marks.kept h).2
  | publish record deadline => exact absurd rfl (hop record deadline)
  | now | stopping => exact congrArg publications h

/-- What a commit adds. -/
structure Adds (w w' : OutboxState) (start : Int) (envelopes : List Envelope) : Prop where
  kept : ∀ key envelope, w.HasRow key envelope → w'.HasRow key envelope
  added : ∀ envelope ∈ envelopes, w'.HasRow (start, envelope.id.uuid) envelope
  only : ∀ key envelope, w'.HasRow key envelope → w.HasRow key envelope ∨ envelope ∈ envelopes

theorem find_id {envelopes : List Envelope} (start : Int)
    (hn : (envelopes.map fun envelope => envelope.id.uuid).Nodup) (hm : envelope ∈ envelopes) :
    (envelopes.find? fun other => (start, other.id.uuid) = (start, envelope.id.uuid)) =
      some envelope := by
  cases hf : envelopes.find? fun other => (start, other.id.uuid) = (start, envelope.id.uuid) with
  | none => simpa using List.find?_eq_none.mp hf envelope hm
  | some other =>
    have hid : other.id.uuid = envelope.id.uuid := by simpa using List.find?_some hf
    rw [List.inj_on_of_nodup_map hn (List.mem_of_find?_eq_some hf) hm hid]

theorem adds_commit {t : Nat} (h : w.act uuids (.commit t) w') : ∃ start envelopes,
    w.transactions t = some ⟨start, envelopes⟩ ∧ Adds w w' start envelopes ∧
      w'.transactions = Function.update w.transactions t none ∧ w'.publications = w.publications := by
  obtain ⟨start, envelopes, ht, hnodup, hfree, rfl⟩ := h
  refine ⟨start, envelopes, ht, ⟨?_, ?_, ?_⟩, rfl, rfl⟩
  · rintro key envelope ⟨hrow, hinserted⟩
    obtain ⟨row, hrow⟩ := Option.ne_none_iff_exists'.mp hrow
    unfold HasRow
    dsimp only
    rw [OutboxTable.rows_insert_of_some hfree hrow, OutboxTable.find_insert_of_some hfree hrow,
      hinserted]
    exact ⟨by simp, rfl⟩
  · intro envelope hm
    unfold HasRow OutboxTable.insert
    dsimp only
    rw [find_id start hnodup hm]
    exact ⟨by simp, rfl⟩
  · rintro key envelope ⟨hrow, hinserted⟩
    dsimp only [OutboxTable.insert] at hrow hinserted
    cases hf : envelopes.find? fun envelope => (start, envelope.id.uuid) = key with
    | none =>
      rw [hf] at hrow hinserted
      exact Or.inl ⟨hrow, hinserted⟩
    | some other =>
      rw [hf] at hinserted
      cases hinserted
      exact Or.inr (List.mem_of_find?_eq_some hf)

end OutboxState

/-! ## Rows of a delivery -/

namespace Inbox

variable {s s' : Inbox Msg} {t : Transaction} {i : Nat}

/-- The envelopes that the transaction wrote. -/
def rowsIn (s : Inbox Msg) (t : Transaction) : List Envelope :=
  (s.rows.filter fun row => row.transaction = t).map (·.envelope)

theorem rowsIn_addRows (envelopes : List Envelope) :
    (s.addRows t i envelopes).rowsIn t = s.rowsIn t ++ envelopes := by
  simp [rowsIn, addRows, List.filter_append, List.filter_map, Function.comp_def]

theorem rowsIn_addRows_of_ne {t' : Transaction} (envelopes : List Envelope) (h : t' ≠ t) :
    (s.addRows t i envelopes).rowsIn t' = s.rowsIn t' := by
  simp [rowsIn, addRows, List.filter_append, List.filter_map, Function.comp_def, h.symm]

/-- A transaction's rows are its delivery's. -/
theorem Consistent.rowsIn_eq {status : Status} (h : s.Consistent)
    (ht : s.transactions t = some (i, status)) : s.rowsIn t = (s.rowsOf i).map (·.envelope) := by
  unfold rowsIn rowsOf
  congr 1
  refine List.filter_congr fun row hm => ?_
  obtain ⟨status', hrow⟩ := h.row row hm
  rw [decide_eq_decide]
  constructor
  · rintro rfl
    rw [ht, Option.some.injEq, Prod.mk.injEq] at hrow
    exact hrow.1.symm
  · rintro rfl
    exact h.single _ _ _ _ _ hrow ht

/-- No row is in a transaction that nobody began. -/
theorem Consistent.rowsIn_nil (h : s.Consistent) (ht : s.transactions t = none) :
    s.rowsIn t = [] := by
  unfold rowsIn
  rw [List.map_eq_nil_iff, List.filter_eq_nil_iff]
  intro row hm he
  rw [decide_eq_true_eq] at he
  obtain ⟨status, hrow⟩ := h.row row hm
  rw [he, ht] at hrow
  cases hrow

/-- With an outbox, a committed transaction has exactly what its delivery's handler published. -/
theorem Consistent.published_eq {job : InboxDelivery Msg} {run : HandlerRun} (h : s.Consistent)
    (ht : s.transactions t = some (i, .committed)) (hd : s.deliveries i = some job)
    (hstore : job.outbox = .store) (hrun : run ∈ s.runs) (hi : run.delivery = i) :
    s.rowsIn t = run.published ∧ run.returned = true := by
  have hwritten := h.written t i _ ht (Or.inl rfl)
  rw [h.rowsIn_eq ht]
  exact ⟨hwritten.rows job hd hstore run hrun hi, hwritten.returned run hrun hi⟩

/-- A row of a committed transaction is of a message that was handled. -/
theorem Consistent.handled_of_row {envelope : Envelope} (h : s.Consistent) (htraced : s.Traced)
    (hstore : ∀ job, s.deliveries i = some job → job.outbox = .store)
    (ht : s.transactions t = some (i, .committed)) (hm : envelope ∈ s.rowsIn t) :
    ∃ job, s.deliveries i = some job ∧ ∃ published,
      s.Handled job.name job.delivery.envelope published ∧ envelope ∈ published ∧
        Caused job.delivery.envelope envelope := by
  have hin := hm
  rw [rowsIn, List.mem_map] at hin
  obtain ⟨row, hfilter, rfl⟩ := hin
  obtain ⟨hrow, hrt⟩ := List.mem_filter.mp hfilter
  obtain rfl : row.transaction = t := of_decide_eq_true hrt
  obtain ⟨status, hof⟩ := h.row row hrow
  obtain ⟨rfl, _⟩ : i = row.delivery ∧ Status.committed = status := by simpa [ht] using hof
  obtain ⟨run, hrun, hi⟩ := htraced.rows row hrow
  obtain ⟨job, hd, hcaused⟩ := htraced.runs run hrun
  rw [hi] at hd
  obtain ⟨hpublished, hreturned⟩ := h.published_eq ht hd (hstore job hd) hrun hi
  rw [hpublished] at hm
  refine ⟨job, hd, run.published, ⟨row.delivery, job, hd, rfl, rfl, ?_, ?_⟩, hm, hcaused _ hm⟩
  · exact h.ownReceiptCommitted (hi ▸ h.run run hrun) ht
  · rw [← hi, ← hreturned]
    exact hrun

theorem Grows.ownReceiptCommitted (h : s.Grows s') (ho : s.OwnReceiptCommitted i) :
    s'.OwnReceiptCommitted i := by
  obtain ⟨r, hm, hi, k, hk⟩ := ho
  exact ⟨r, h.receipts hm, hi, k, h.committed _ _ hk⟩

theorem Grows.handled {endpoint : String} {envelope : Envelope} {published : List Envelope}
    (h : s.Grows s') (hh : s.Handled endpoint envelope published) :
    s'.Handled endpoint envelope published := by
  obtain ⟨i, job, hd, hname, he, ho, hrun⟩ := hh
  exact ⟨i, job, h.deliveries i job hd, hname, he, h.ownReceiptCommitted ho, h.runs hrun⟩

end Inbox

/-! ## The invariant -/

section Rooted

variable {trace trace' : List (DeploymentLabel Msg)} {w w' : OutboxState} {s s' : Inbox Msg}
  {root envelope : Envelope}

theorem Rooted.later (h : Rooted trace w s root envelope) (htrace : trace ⊆ trace')
    (hrows : ∀ key envelope, w.HasRow key envelope → w'.HasRow key envelope) (hg : s.Grows s') :
    Rooted trace' w' s' root envelope := by
  induction h with
  | applied t key hm hrow => exact .applied t key (htrace hm) (hrows key root hrow)
  | answer endpoint _ hh hm hcaused ih => exact .answer endpoint ih (hg.handled hh) hm hcaused

/-- A conversation has one correlation id and one trace context. -/
theorem Rooted.same (h : Rooted trace w s root envelope) :
    envelope.correlation.correlationId = root.correlation.correlationId ∧
      envelope.trace = root.trace := by
  induction h with
  | applied => exact ⟨rfl, rfl⟩
  | answer _ _ _ _ hcaused ih =>
    exact ⟨hcaused.correlation.trans ih.1, hcaused.trace.trans ih.2⟩

end Rooted

/-- What ties the outbox's tables to the deliveries', and to the broker. -/
structure Coupled (trace : List (DeploymentLabel Msg)) (w : OutboxState) (c : Consumers Msg) :
    Prop where
  /-- A delivery's open transaction holds its rows. -/
  held : ∀ t i status, c.tables.transactions t = some (i, status) →
    status = .running ∨ status = .unresolved →
      ∃ start, w.transactions t.id = some ⟨start, c.tables.rowsIn t⟩
  /-- A delivery's committed transaction has its rows in the table. -/
  rows : ∀ t i, c.tables.transactions t = some (i, .committed) →
    ∃ start, ∀ envelope ∈ c.tables.rowsIn t, w.HasRow (start, envelope.id.uuid) envelope
  /-- Other open transactions hold what applications inserted. -/
  applied : ∀ t begun, w.transactions t = some begun → c.tables.transactions ⟨t⟩ = none →
    ∀ envelope ∈ begun.envelopes, .inl (.env (.insert t envelope)) ∈ trace
  accepted : ∀ publication ∈ w.publications, publication.reply = .accepted →
    ∃ stored ∈ c.stream, stored.id = publication.record.envelope.id
  stored : ∀ envelope ∈ c.stream, ∃ key, w.HasRow key envelope
  rooted : ∀ key envelope, w.HasRow key envelope → ∃ root, Rooted trace w c.tables root envelope

namespace Coupled

variable {uuids : UuidFormat} {times : PgTimes} {debug : String → String}
  {trace : List (DeploymentLabel Msg)} {l : DeploymentLabel Msg} {w w' : OutboxState}
  {c c' : Consumers Msg}

/-- A step, given what it does to the transactions and which rows are new. -/
theorem next (h : Coupled trace w c)
    (hkept : ∀ key envelope, w.HasRow key envelope → w'.HasRow key envelope)
    (hg : c.tables.Grows c'.tables)
    (hheld : ∀ t i status, c'.tables.transactions t = some (i, status) →
      status = .running ∨ status = .unresolved →
        ∃ start, w'.transactions t.id = some ⟨start, c'.tables.rowsIn t⟩)
    (hrows : ∀ t i, c'.tables.transactions t = some (i, .committed) →
      ∃ start, ∀ envelope ∈ c'.tables.rowsIn t, w'.HasRow (start, envelope.id.uuid) envelope)
    (happlied : ∀ t begun, w'.transactions t = some begun → c'.tables.transactions ⟨t⟩ = none →
      ∀ envelope ∈ begun.envelopes, .inl (.env (.insert t envelope)) ∈ trace ++ [l])
    (haccepted : ∀ publication ∈ w'.publications, publication.reply = .accepted →
      publication ∈ w.publications ∨ ∃ stored ∈ c'.stream, stored.id = publication.record.envelope.id)
    (hstream : c.stream ⊆ c'.stream)
    (hstored : ∀ envelope ∈ c'.stream, envelope ∈ c.stream ∨ ∃ key, w'.HasRow key envelope)
    (hnew : ∀ key envelope, w'.HasRow key envelope → w.HasRow key envelope ∨
      ∃ root, Rooted (trace ++ [l]) w' c'.tables root envelope) :
    Coupled (trace ++ [l]) w' c' where
  held := hheld
  rows := hrows
  applied := happlied
  accepted := by
    intro publication hp hreply
    rcases haccepted publication hp hreply with hp | hin
    · obtain ⟨stored, hm, hid⟩ := h.accepted publication hp hreply
      exact ⟨stored, hstream hm, hid⟩
    · exact hin
  stored := by
    intro envelope hm
    rcases hstored envelope hm with hm | hnew
    · obtain ⟨key, hrow⟩ := h.stored envelope hm
      exact ⟨key, hkept key envelope hrow⟩
    · exact hnew
  rooted := by
    intro key envelope hrow
    rcases hnew key envelope hrow with hrow | hroot
    · obtain ⟨root, hroot⟩ := h.rooted key envelope hrow
      exact ⟨root, hroot.later (List.subset_append_left _ _) hkept hg⟩
    · exact hroot

/-- A step at the outbox that keeps its rows and its transactions. -/
theorem outbox (h : Coupled trace w c) (hk : OutboxState.Kept w w') (htables : c'.tables = c.tables)
    (haccepted : ∀ publication ∈ w'.publications, publication.reply = .accepted →
      publication ∈ w.publications ∨ ∃ stored ∈ c'.stream, stored.id = publication.record.envelope.id)
    (hstream : c.stream ⊆ c'.stream)
    (hstored : ∀ envelope ∈ c'.stream, envelope ∈ c.stream ∨ ∃ key, w'.HasRow key envelope) :
    Coupled (trace ++ [l]) w' c' := by
  refine h.next (fun key envelope hrow => hk.hasRow.mpr hrow) ?_ ?_ ?_ ?_ haccepted hstream hstored
    fun key envelope hrow => Or.inl (hk.hasRow.mp hrow)
  · rw [htables]
    exact .refl _
  · rw [htables, hk.transactions]
    exact h.held
  · intro t i ht
    rw [htables] at ht ⊢
    obtain ⟨start, hrows⟩ := h.rows t i ht
    exact ⟨start, fun envelope hm => hk.hasRow.mpr (hrows envelope hm)⟩
  · intro t begun ht hn envelope hm
    rw [hk.transactions] at ht
    rw [htables] at hn
    exact List.mem_append_left _ (h.applied t begun ht hn envelope hm)

/-- An application's transaction. -/
theorem application (h : Coupled trace w c) {t : Nat} {begun : Option OpenTransaction}
    (hn : c.tables.transactions ⟨t⟩ = none)
    (ht : w'.transactions = Function.update w.transactions t begun)
    (hbegun : ∀ transaction, begun = some transaction → ∀ envelope ∈ transaction.envelopes,
      .inl (.env (.insert t envelope)) ∈ trace ++ [l])
    (hpublications : w'.publications = w.publications)
    (hkept : ∀ key envelope, w.HasRow key envelope → w'.HasRow key envelope)
    (hnew : ∀ key envelope, w'.HasRow key envelope → w.HasRow key envelope ∨
      ∃ root, Rooted (trace ++ [l]) w' c.tables root envelope) :
    Coupled (trace ++ [l]) w' c := by
  refine h.next hkept (.refl _) ?_ ?_ ?_ ?_ (List.Subset.refl _) (fun _ hm => Or.inl hm) hnew
  · intro t' i status ht' hopen
    have hne : t'.id ≠ t := by
      rintro rfl
      rw [hn] at ht'
      cases ht'
    rw [ht, Function.update_of_ne hne]
    exact h.held t' i status ht' hopen
  · intro t' i ht'
    obtain ⟨start, hrows⟩ := h.rows t' i ht'
    exact ⟨start, fun envelope hm => hkept _ _ (hrows envelope hm)⟩
  · intro t' transaction ht' hn' envelope hm
    rw [ht] at ht'
    rcases update_eq_some.mp ht' with ⟨rfl, hb⟩ | ⟨_, ht'⟩
    · exact hbegun transaction hb envelope hm
    · exact List.mem_append_left _ (h.applied t' transaction ht' hn' envelope hm)
  · intro publication hp _
    exact Or.inl (hpublications ▸ hp)

/-- A delivery's transaction. -/
theorem delivery (h : Coupled trace w c) (t : Transaction) (i : Nat) (status : Status)
    {begun : Option OpenTransaction} (hg : c.tables.Grows c'.tables) (hstream : c'.stream = c.stream)
    (htables : c'.tables.transactions = Function.update c.tables.transactions t (some (i, status)))
    (hin : ∀ t', t' ≠ t → c'.tables.rowsIn t' = c.tables.rowsIn t')
    (ht : w'.transactions = Function.update w.transactions t.id begun)
    (hpublications : w'.publications = w.publications)
    (hheld : status = .running ∨ status = .unresolved →
      ∃ start, begun = some ⟨start, c'.tables.rowsIn t⟩)
    (hrows : status = .committed →
      ∃ start, ∀ envelope ∈ c'.tables.rowsIn t, w'.HasRow (start, envelope.id.uuid) envelope)
    (hkept : ∀ key envelope, w.HasRow key envelope → w'.HasRow key envelope)
    (hnew : ∀ key envelope, w'.HasRow key envelope → w.HasRow key envelope ∨
      ∃ root, Rooted (trace ++ [l]) w' c'.tables root envelope) :
    Coupled (trace ++ [l]) w' c' := by
  have hid : ∀ t' : Transaction, t' ≠ t → t'.id ≠ t.id := by
    rintro ⟨t'⟩ hne rfl
    exact hne rfl
  refine h.next hkept hg ?_ ?_ ?_ ?_ (hstream ▸ List.Subset.refl _)
    (fun _ hm => Or.inl (hstream ▸ hm)) hnew
  · intro t' k status' ht' hopen
    rw [htables] at ht'
    rcases update_eq_some.mp ht' with ⟨rfl, he⟩ | ⟨hne, ht'⟩
    · cases he
      rw [ht, Function.update_self]
      exact hheld hopen
    · rw [ht, Function.update_of_ne (hid t' hne), hin t' hne]
      exact h.held t' k status' ht' hopen
  · intro t' k ht'
    rw [htables] at ht'
    rcases update_eq_some.mp ht' with ⟨rfl, he⟩ | ⟨hne, ht'⟩
    · cases he
      exact hrows rfl
    · obtain ⟨start, hrows⟩ := h.rows t' k ht'
      rw [hin t' hne]
      exact ⟨start, fun envelope hm => hkept _ _ (hrows envelope hm)⟩
  · intro t' transaction ht' hn envelope hm
    have hne : t' ≠ t.id := by
      rintro rfl
      rw [htables, Function.update_self] at hn
      cases hn
    rw [ht, Function.update_of_ne hne] at ht'
    rw [htables, Function.update_of_ne (fun he => hne (congrArg Transaction.id he))] at hn
    exact List.mem_append_left _ (h.applied t' transaction ht' hn envelope hm)
  · intro publication hp _
    exact Or.inl (hpublications ▸ hp)

/-! ## What each step keeps -/

/-- What applications do, and people. -/
theorem act (h : Coupled trace w c) {a : OutboxAction} (ha : w.act uuids a w') {s : OutboxPool}
    (hsupported : Supported times s (.env a)) {actions : List ConsumerAction}
    (hl : c.Links (.env a) actions) :
    Coupled (trace ++ [.inl (.env a)]) w' c ∧ actions = [] := by
  cases a with
  | begin t now =>
    obtain ⟨_, rfl⟩ := ha
    obtain ⟨hnil, hn⟩ := hl
    refine ⟨h.application hn rfl ?_ rfl (fun _ _ hr => hr) fun _ _ hr => Or.inl hr, hnil⟩
    intro transaction hb
    cases hb
    simp
  | insert t envelope =>
    obtain ⟨start, envelopes, ht, rfl⟩ := ha
    obtain ⟨hnil, hn⟩ := hl
    refine ⟨h.application hn rfl ?_ rfl (fun _ _ hr => hr) fun _ _ hr => Or.inl hr, hnil⟩
    intro transaction hb other hm
    cases hb
    rcases List.mem_append.mp hm with hm | hm
    · exact List.mem_append_left _ (h.applied t _ ht hn other hm)
    · rw [List.mem_singleton.mp hm]
      exact List.mem_append_right _ (List.mem_singleton_self _)
  | commit t =>
    obtain ⟨start, envelopes, ht, hadds, htransactions, hpublications⟩ := OutboxState.adds_commit ha
    obtain ⟨hnil, hn⟩ := hl
    refine ⟨h.application hn htransactions (by simp) hpublications hadds.kept ?_, hnil⟩
    intro key envelope hr
    refine (hadds.only key envelope hr).imp_right fun hm => ⟨envelope, .applied t key ?_ hr⟩
    exact List.mem_append_left _ (h.applied t _ ht hn envelope hm)
  | rollback t =>
    obtain ⟨_, rfl⟩ := ha
    obtain ⟨hnil, hn⟩ := hl
    exact ⟨h.application hn rfl (by simp) rfl (fun _ _ hr => hr) fun _ _ hr => Or.inl hr, hnil⟩
  | requeue key =>
    obtain ⟨row, hr, _, rfl⟩ := ha
    refine ⟨h.outbox ⟨fun other => ?_, rfl, rfl⟩ rfl (fun _ hp _ => Or.inl hp)
      (List.Subset.refl _) fun _ hm => Or.inl hm, hl⟩
    by_cases he : other = key
    · subst he
      simp [hr]
    · simp [he]
  | write key row now => exact hsupported.elim

/-- A round's operation, and what the broker does at it. -/
theorem exec (h : Coupled trace w c) {i : Nat} {op : DispatchOp} {reply : DispatchRet op}
    (he : w.exec times i op reply w')
    (hpublished : ∀ publication ∈ w'.publications, w'.Inserted times publication.record)
    {actions : List ConsumerAction} (hl : c.Links (.exec i op reply) actions)
    {endpoints : List EndpointSpec} {t t' : ConsumerPool Msg} (ht : t.shared = c)
    (ht' : t'.shared = c') (ha : Acts (consumers Msg endpoints) WriteOutbox t actions t') :
    Coupled (trace ++ [l]) w' c' := by
  have hkept := OutboxState.exec_kept he
  by_cases hop : ∃ record deadline, op = .publish record deadline
  · obtain ⟨record, deadline, rfl⟩ := hop
    have hpublications : w'.publications = w.publications ++ [⟨i, record, reply⟩] :=
      congrArg OutboxState.publications he
    rcases hl with rfl | ⟨rfl, hreply⟩
    · -- The broker stores the message.
      obtain ⟨⟨_, heq⟩, _⟩ := ha.one
      rw [ht, ht'] at heq
      have htables : c'.tables = c.tables := by rw [heq]
      have hstream : c'.stream = c.stream ++ [record.envelope] := by rw [heq]
      refine h.outbox hkept htables ?_ (hstream ▸ List.subset_append_left _ _) ?_
      · intro publication hp _
        rw [hpublications] at hp
        rcases List.mem_append.mp hp with hp | hp
        · exact Or.inl hp
        · rw [List.mem_singleton.mp hp, hstream]
          exact Or.inr ⟨record.envelope, by simp, rfl⟩
      · intro envelope hm
        rw [hstream] at hm
        rcases List.mem_append.mp hm with hm | hm
        · exact Or.inl hm
        · obtain rfl := List.mem_singleton.mp hm
          obtain ⟨key, hrow, hinserted, _⟩ := hpublished ⟨i, record, reply⟩ (by simp [hpublications])
          exact Or.inr ⟨key, hrow, hinserted⟩
    · -- The publish fails, or the message is there already.
      obtain rfl : c' = c := by rw [← ht, ← ht', ha.nil_eq]
      refine h.outbox hkept rfl ?_ (List.Subset.refl _) fun _ hm => Or.inl hm
      intro publication hp haccepted
      rw [hpublications] at hp
      rcases List.mem_append.mp hp with hp | hp
      · exact Or.inl hp
      · obtain rfl := List.mem_singleton.mp hp
        exact Or.inr (hreply.resolve_left (absurd haccepted))
  · have hnil : actions = [] := by
      cases op with
      | publish record deadline => exact absurd ⟨record, deadline, rfl⟩ hop
      | _ => exact hl
    subst hnil
    obtain rfl : c' = c := by rw [← ht, ← ht', ha.nil_eq]
    have hpublications : w'.publications = w.publications :=
      OutboxState.exec_publications he fun record deadline heq => hop ⟨record, deadline, heq⟩
    refine h.outbox hkept rfl ?_ (List.Subset.refl _) fun _ hm => Or.inl hm
    intro publication hp _
    exact Or.inl (hpublications ▸ hp)

/-- The rows that a delivery writes, one by one. -/
theorem acts_inserts {s s' : OutboxPool} {t : Nat} {envelopes : List Envelope}
    (ha : Acts (outboxSystem uuids times debug) (Supported times) s
      (envelopes.map (OutboxAction.insert t)) s') {start : Int} {before : List Envelope}
    (ht : s.shared.transactions t = some ⟨start, before⟩) :
    s'.shared = { s.shared with
      transactions :=
        Function.update s.shared.transactions t (some ⟨start, before ++ envelopes⟩) } := by
  induction envelopes generalizing s before with
  | nil =>
    rw [ha.nil_eq, List.append_nil, ← ht, Function.update_eq_self]
  | cons envelope envelopes ih =>
    cases ha with
    | @cons _ _ sh _ _ he _ ha =>
      obtain ⟨start', envelopes', ht', rfl⟩ := he
      rw [ht, Option.some.injEq, OpenTransaction.mk.injEq] at ht'
      obtain ⟨rfl, rfl⟩ := ht'
      rw [ih ha (Function.update_self ..)]
      dsimp only
      rw [Function.update_idem, List.append_assoc]
      rfl

/-- A step of the deliveries, and what it does to the outbox. -/
theorem mirrors (h : Coupled trace w c) {s s' : OutboxPool} (hw : s.shared = w)
    (hw' : s'.shared = w') {actions : List OutboxAction}
    (hm : c.tables.Mirrors c'.tables actions)
    (ha : Acts (outboxSystem uuids times debug) (Supported times) s actions s')
    (hg : c.tables.Grows c'.tables) (hstream : c'.stream = c.stream)
    (hbefore : c.tables.Consistent) (hafter : c'.tables.Consistent) (htraced : c'.tables.Traced)
    (hstore : ∀ i job, c'.tables.deliveries i = some job → job.outbox = .store)
    (hdelivered : ∀ i job, c'.tables.deliveries i = some job → job.delivery.envelope ∈ c.stream) :
    Coupled (trace ++ [l]) w' c' := by
  cases hm with
  | same ht hr =>
    obtain rfl : w' = w := by rw [← hw, ← hw', ha.nil_eq]
    have hin : ∀ t, c'.tables.rowsIn t = c.tables.rowsIn t := by
      unfold Inbox.rowsIn
      rw [hr]
      exact fun _ => rfl
    refine h.next (fun _ _ hrow => hrow) hg ?_ ?_ ?_ (fun _ hp _ => Or.inl hp)
      (hstream ▸ List.Subset.refl _) (fun _ hm => Or.inl (hstream ▸ hm)) fun _ _ hrow => Or.inl hrow
    · intro t i status
      rw [ht, hin]
      exact h.held t i status
    · intro t i
      rw [ht, hin]
      exact h.rows t i
    · intro t begun htr hn envelope hm
      rw [ht] at hn
      exact List.mem_append_left _ (h.applied t begun htr hn envelope hm)
  | began t i now hn heq =>
    obtain ⟨⟨_, hact⟩, _⟩ := ha.one
    rw [hw, hw'] at hact
    subst hact
    have hnil : c'.tables.rowsIn t = [] := by
      rw [heq]
      exact hbefore.rowsIn_nil hn
    refine h.delivery t i .running hg hstream (by rw [heq]; rfl) (fun _ _ => by rw [heq]; rfl) rfl rfl
      ?_ nofun (fun _ _ hrow => hrow) fun _ _ hrow => Or.inl hrow
    exact fun _ => ⟨now, by rw [hnil]⟩
  | wrote t i envelopes hr heq =>
    obtain ⟨k, hk⟩ := hr
    obtain ⟨start, hstart⟩ := h.held t k _ hk (Or.inl rfl)
    have hact := acts_inserts ha (hw ▸ hstart)
    rw [hw, hw'] at hact
    subst hact
    refine h.delivery t k .running hg hstream ?_ ?_ rfl rfl ?_ nofun
      (fun _ _ hrow => hrow) fun _ _ hrow => Or.inl hrow
    · rw [heq, ← hk, Function.update_eq_self]
      rfl
    · intro t' hne
      rw [heq, Inbox.rowsIn_addRows_of_ne envelopes hne]
    · exact fun _ => ⟨start, by rw [heq, Inbox.rowsIn_addRows]⟩
  | «open» t i status hopen hstatus heq =>
    obtain rfl : w' = w := by rw [← hw, ← hw', ha.nil_eq]
    obtain ⟨k, hk⟩ := hopen
    obtain ⟨start, hstart⟩ : ∃ start, w'.transactions t.id = some ⟨start, c.tables.rowsIn t⟩ := by
      rcases hk with hk | hk
      · exact h.held t k _ hk (Or.inl rfl)
      · exact h.held t k _ hk (Or.inr rfl)
    refine h.delivery t i status hg hstream (by rw [heq]; rfl) (fun _ _ => by rw [heq]; rfl)
      (Function.update_eq_self ..).symm rfl ?_ ?_ (fun _ _ hrow => hrow) fun _ _ hrow => Or.inl hrow
    · exact fun _ => ⟨start, by rw [hstart, heq]; rfl⟩
    · rintro rfl
      rcases hstatus with hstatus | hstatus
      · cases hstatus
      · cases hstatus
  | committed t i hopen heq =>
    obtain ⟨hact, _⟩ := ha.one
    rw [hw, hw'] at hact
    obtain ⟨start, envelopes, ht, hadds, htransactions, hpublications⟩ := OutboxState.adds_commit hact
    have hrows : envelopes = c'.tables.rowsIn t := by
      obtain ⟨k, hk⟩ := hopen
      have hheld : ∃ start, w.transactions t.id = some ⟨start, c.tables.rowsIn t⟩ := by
        rcases hk with hk | hk
        · exact h.held t k _ hk (Or.inl rfl)
        · exact h.held t k _ hk (Or.inr rfl)
      obtain ⟨start', hheld⟩ := hheld
      rw [ht, Option.some.injEq, OpenTransaction.mk.injEq] at hheld
      rw [hheld.2, heq]
      rfl
    subst hrows
    have hi : c'.tables.transactions t = some (i, .committed) := by
      rw [heq]
      exact Inbox.transactions_set_self _
    refine h.delivery t i .committed hg hstream (by rw [heq]; rfl) (fun _ _ => by rw [heq]; rfl)
      htransactions hpublications (by simp) (fun _ => ⟨start, hadds.added⟩) hadds.kept ?_
    -- The message that was handled has a row, which goes back to a root.
    intro key envelope hrow
    refine (hadds.only key envelope hrow).imp_right fun hm => ?_
    obtain ⟨job, hjob, published, hhandled, hin, hcaused⟩ :=
      hafter.handled_of_row htraced (hstore i) hi hm
    obtain ⟨parentKey, hparent⟩ := h.stored _ (hdelivered i job hjob)
    obtain ⟨root, hroot⟩ := h.rooted _ _ hparent
    exact ⟨root, .answer job.name
      (hroot.later (List.subset_append_left _ _) hadds.kept hg) hhandled hin hcaused⟩
  | rolledBack t i hopen heq =>
    obtain ⟨⟨_, hact⟩, _⟩ := ha.one
    rw [hw, hw'] at hact
    subst hact
    exact h.delivery t i .rolledBack hg hstream (by rw [heq]; rfl) (fun _ _ => by rw [heq]; rfl) rfl rfl
      (by simp) nofun (fun _ _ hrow => hrow) fun _ _ hrow => Or.inl hrow

end Coupled

namespace Deployment

variable {uuids : UuidFormat} {times : PgTimes} {debug : String → String}
  {endpoints : List EndpointSpec} {trace : List (DeploymentLabel Msg)} {s : OutboxPool}
  {t : ConsumerPool Msg}

/-- The state of a run from empty tables and an empty broker, and what its steps were. -/
abbrev Runs (uuids : UuidFormat) (times : PgTimes) (debug : String → String)
    (endpoints : List EndpointSpec) (trace : List (DeploymentLabel Msg)) (s : OutboxPool)
    (t : ConsumerPool Msg) : Prop :=
  (deployment Msg uuids times debug endpoints).Reach OutboxState.Empty Consumers.Empty trace s t

theorem writeOutbox (h : (consumers Msg endpoints).Reach Consumers.Empty WriteOutbox t) (i : Nat)
    (job : InboxDelivery Msg) (hi : t.shared.tables.deliveries i = some job) :
    job.outbox = .store := by
  induction h with
  | init h =>
    rw [h.1.1] at hi
    cases hi
  | step _ hs hc ih =>
    cases hs with
    | launch _ hl =>
      obtain ⟨⟨_, htables⟩, _⟩ := hl
      rw [htables] at hi
      rcases update_eq_some.mp hi with ⟨_, he⟩ | ⟨_, hi⟩
      · cases he
        exact hc
      · exact ih hi
    | exec _ he =>
      rw [he.1.change.deliveries] at hi
      exact ih hi
    | leave _ hl =>
      obtain rfl := hl
      exact ih hi
    | @env a sh he =>
      cases a with
      | resolve t =>
        rw [he.1.deliveries] at hi
        exact ih hi
      | store envelope =>
        rw [show sh = _ from he.2] at hi
        exact ih hi

theorem sound (h : Runs uuids times debug endpoints trace s t) :
    ∃ γ, Sound uuids times s.shared γ := by
  have hrun : (outboxSystem uuids times debug).Reach OutboxState.Empty (Supported times) s := h.run₁
  obtain ⟨γ, _, hsound⟩ := hrun.tracked Sound.keeps fun _ => Sound.empty
  exact ⟨γ, hsound⟩

theorem coupled (h : Runs uuids times debug endpoints trace s t) :
    Coupled trace s.shared t.shared := by
  induction h with
  | init h₁ h₂ =>
    obtain ⟨htables, hbroker, hstream⟩ := h₂
    constructor
    · simp [htables.2.1]
    · simp [htables.2.1]
    · simp [h₁.transactions]
    · simp [h₁.publications]
    · simp [hstream]
    · simp [OutboxState.HasRow, h₁.rows]
  | @first trace s l s' t actions t' h hs hc hl ha ih =>
    cases hs with
    | launch _ hlaunch =>
      obtain ⟨_, _, rfl⟩ := hlaunch
      obtain rfl := hl
      rw [ha.nil_eq]
      exact ih.outbox ⟨fun _ => Iff.rfl, rfl, rfl⟩ rfl (fun _ hp _ => Or.inl hp)
        (List.Subset.refl _) fun _ hm => Or.inl hm
    | @exec i job op next reply sh hp he =>
      obtain ⟨γ, hsound⟩ := sound (.first h (.exec hp he) hc hl ha)
      exact ih.exec he hsound.published hl rfl rfl ha
    | leave _ hleave =>
      obtain rfl := hleave
      obtain rfl := hl
      rw [ha.nil_eq]
      exact ih.outbox (.refl _) rfl (fun _ hp _ => Or.inl hp) (List.Subset.refl _)
        fun _ hm => Or.inl hm
    | env he =>
      obtain ⟨hcoupled, rfl⟩ := ih.act he hc hl
      rwa [ha.nil_eq]
  | @second trace s t l t' actions s' h hs hc hl ha ih =>
    have hrun := h.run₂
    have hnext := hrun.step hs hc
    obtain ⟨hne, hmirrors⟩ := hl
    have hstream : t'.shared.stream = t.shared.stream := Consumers.step_stream hs hne
    refine ih.mirrors rfl rfl hmirrors ha (Consumers.step_grows hs) hstream
      (Inbox.consistent (Consumers.run_tables hrun)) (Inbox.consistent (Consumers.run_tables hnext))
      (Inbox.traced (Consumers.run_tables hnext)) (writeOutbox hnext) ?_
    rw [← hstream]
    exact (Consumers.streamed hnext).delivered

/-- No two rows' messages have one id. -/
def DistinctIds (w : OutboxState) : Prop :=
  ∀ key envelope other envelope', w.HasRow key envelope → w.HasRow other envelope' →
    envelope.id = envelope'.id → envelope = envelope'

/-! ## A conversation -/

/-- A delivery's operation. -/
theorem deliver (h : Runs uuids times debug endpoints trace s t) (i : Nat) (op : Op Msg)
    (reply : Ret Msg op) {consumed : Consumed Msg}
    {next : Ret Msg op → Prog (Op Msg) (Ret Msg) Unit} {tables : Inbox Msg} {taken : Broker Msg}
    {actions : List OutboxAction} {s' : OutboxPool}
    (hp : t.procs i = some ⟨consumed, .call op next⟩)
    (htables : t.shared.tables.Answers i tables op reply)
    (htaken : t.shared.broker.Takes consumed.message taken op reply)
    (hm : t.shared.tables.Mirrors tables actions)
    (ha : Acts (outboxSystem uuids times debug) (Supported times) s actions s') :
    Runs uuids times debug endpoints (trace ++ [.inr (.exec i op reply)]) s'
      ⟨Function.update t.procs i (some ⟨consumed, next reply⟩),
        ⟨tables, taken.log i ⟨op, reply⟩, t.shared.stream⟩⟩ := by
  have hexec : (consumers Msg endpoints).exec i consumed op reply t.shared
      ⟨tables, taken.log i ⟨op, reply⟩, t.shared.stream⟩ := ⟨htables, ⟨taken, htaken, rfl⟩, rfl⟩
  have hlinks : (deployment Msg uuids times debug endpoints).links₂ t.shared (.exec i op reply)
      ⟨tables, taken.log i ⟨op, reply⟩, t.shared.stream⟩ s.shared actions := ⟨fun _ => by simp, hm⟩
  exact h.exec₂ i op reply hp hexec trivial hlinks ha

/-- A delivery starts. -/
theorem receive (h : Runs uuids times debug endpoints trace s t) (i : Nat) (consumed : Consumed Msg)
    (hn : t.procs i = none) (hfree : t.shared.tables.deliveries i = none)
    (hnew : t.shared.broker.history i = none) (hl : t.shared.broker.left consumed.message = false)
    (hm : t.shared.broker.messages consumed.message =
      some (consumed.job.name, consumed.job.delivery.envelope))
    (hstore : consumed.job.outbox = .store) :
    Runs uuids times debug endpoints (trace ++ [.inr (.launch i consumed)]) s
      ⟨Function.update t.procs i (some ⟨consumed, consumed.job.process⟩),
        ⟨{ t.shared.tables with
            deliveries := Function.update t.shared.tables.deliveries i (some consumed.job) },
          { t.shared.broker with
            history := Function.update t.shared.broker.history i (some (consumed.received, [])) },
          t.shared.stream⟩⟩ :=
  h.launch₂ i consumed hn ⟨⟨hfree, rfl⟩, ⟨hnew, hl, hm, rfl⟩, rfl⟩ hstore
    ⟨fun _ => by simp, .same rfl rfl⟩ .nil

/-- The broker stores a message and puts it on one endpoint. -/
theorem store_one {c : Consumers Msg} {envelope : Envelope} {name : String} (message : Nat)
    (hf : fanOut endpoints envelope = [(name, envelope)]) (hn : c.broker.messages message = none) :
    (consumers Msg endpoints).env (.store envelope) c
      ⟨c.tables, { c.broker with
        messages := Function.update c.broker.messages message (some (name, envelope)) },
        c.stream ++ [envelope]⟩ := by
  refine ⟨?_, rfl⟩
  rw [hf]
  exact .cons message hn .nil

/-- The paid basket as JSON, its row as a claim until `token` returns it, and its record. -/
def paidJson : Envelope := { basketPaid with contentType := jsonContentType }

def paidJsonClaim (token : Int) : ClaimedRow :=
  ⟨columns .rfc9562 paidJson, PgTimes.utc.json 0, 0, PgTimes.utc.json token⟩

def paidJsonRecord (token : Int) : OutboxRecord :=
  ⟨paidJson, .fromUnixNanos 0, 0, .fromUnixNanos (token * 1000)⟩

theorem readRows_paidJson (debug : String → String) {token : Int} (h : InYears token) :
    readRows .rfc9562 debug [paidJsonClaim token] = Prog.ret (.ok [paidJsonRecord token]) := by
  have hparse : ∀ {time}, InYears time →
      Timestamp.parse (PgTimes.utc.json time) = .ok (.fromUnixNanos (time * 1000)) := by
    intro time ht
    rw [utc_json ht, Timestamp.parse_toText]
  have hrecord : record .rfc9562 (paidJsonClaim token) = .ok (paidJsonRecord token) :=
    record_columns _ paidJson rfl (hparse (by decide)) (hparse h)
  simp only [readRows, hrecord]
  rfl

/-- The endpoint that answers a paid basket. -/
def collecting : EndpointSpec := ⟨"collecting", [paidJson.messageType]⟩

def collected : Consumed Unit where
  job :=
    { name := "collecting"
      retry := .default
      handlers := [(paidJson.messageType, .typed ⟨fun _ => .returned (.ok ())⟩)]
      outbox := .store
      source := billing
      delivery := ⟨paidJson, 1⟩ }
  message := 0

/-- The context that its handler is shown. -/
def collectedContext : HandlerContext (Option Transaction) :=
  ⟨billing, "collecting", paidJson, 1, [], some ⟨1⟩⟩

/-- An application's row is published and marked, and its delivery answers with another row. -/
theorem collected_run : ∃ (trace : List (DeploymentLabel Unit)) (s : OutboxPool)
    (t : ConsumerPool Unit), Runs .rfc9562 .utc id [collecting] trace s t ∧ DistinctIds s.shared ∧
      (∃ row, s.shared.table.rows paidKey = some row ∧ row.status = .dispatched ∧
        row.columns = (Postgres.OutboxRow.insert .rfc9562 paidJson 0).columns) ∧
      s.shared.table.rows (3, 1) =
        some (.insert .rfc9562 (collectedContext.envelopeOf invoiceSent) 3) ∧
      t.shared.broker.left 0 = true ∧
      t.shared.tables.Handled "collecting" paidJson [collectedContext.envelopeOf invoiceSent] := by
  let settings := DispatchSettings.default
  let row : Postgres.OutboxRow := .insert .rfc9562 paidJson 0
  let empty : OutboxTable := ⟨fun _ => none, fun _ => 0, fun _ => []⟩
  let committed := empty.insert .rfc9562 [paidJson] 0
  let claimed := committed.claim 0 [paidKey] 1 (1 + 30000000)
  have hspan : interval settings.lease = some 30000000 := by decide
  have hyears : InYears 30000001 := by decide
  have hfan : fanOut [collecting] paidJson = [("collecting", paidJson)] := by
    simp [fanOut, collecting]
  have h0 : Runs .rfc9562 .utc id [collecting] ([] : List (DeploymentLabel Unit))
      ⟨fun _ => none, empty, fun _ => none, [], fun _ => none, fun _ => none⟩
      ⟨fun _ => none, ⟨fun _ => none, fun _ => none, [], [], [], [], []⟩,
        ⟨fun _ => none, fun _ => false, [], fun _ => none⟩, []⟩ :=
    .init ⟨⟨rfl, rfl⟩, rfl, rfl, rfl, rfl⟩
      ⟨⟨fun _ => rfl, fun _ => rfl, rfl, rfl, rfl, rfl, rfl⟩, ⟨fun _ => ⟨rfl, rfl⟩, fun _ => rfl⟩, rfl⟩
  have h1 := h0.env₁ (.begin 0 0) ⟨rfl, rfl⟩ ⟨by decide, by decide⟩ ⟨rfl, rfl⟩ .nil
  have h2 := h1.env₁ (.insert 0 paidJson) ⟨0, [], rfl, rfl⟩ trivial ⟨rfl, rfl⟩ .nil
  have h3 := h2.env₁ (.commit 0) ⟨0, [paidJson], rfl, by decide, by simp [empty], rfl⟩ trivial
    ⟨rfl, rfl⟩ .nil
  have h4 := h3.launch₁ 0 settings rfl ⟨rfl, rfl, rfl⟩ trivial rfl .nil
  rw [show (deployment Unit .rfc9562 .utc id [collecting]).first.body settings = _ from
    outboxSystem_body .rfc9562 .utc id settings] at h4
  have h5 := h4.exec₁ 0 .now (0 : Nat) rfl rfl trivial rfl .nil
  have h6 := h5.exec₁ 0 (.claimDue 100 settings.lease) (.ok [paidJsonClaim 30000001]) rfl
    (Or.inl ⟨30000000, 1, [paidKey], claimed, hspan,
      claimDue_paid row _ (by decide) rfl rfl (by decide) (by decide), rfl, ?rows⟩) ?years rfl .nil
  have h7 := h6.exec₁ 0 .stopping false (by
    change some (System.Proc.mk settings
      (readRows .rfc9562 id [paidJsonClaim 30000001] >>= afterClaim settings 0)) = _
    rw [readRows_paidJson id hyears]
    rfl) rfl trivial rfl .nil
  have h8 := h7.exec₁ 0 .now (0 : Nat) rfl rfl trivial rfl .nil
  have h9 := h8.exec₁ 0 (.publish (paidJsonRecord 30000001) _) .accepted rfl rfl trivial (Or.inl rfl)
    (.cons (store_one 0 hfan rfl) trivial .nil)
  let due := { row with availableAt := 30000001 }
  have hr : claimed.rows paidKey = some due := rfl
  have hmark := markRows_paid due 2 hyears .setDispatched hr (by decide) (by decide)
  have hchange := rows_markRows_paid due 2 hyears .setDispatched hr rfl rfl
  have h10 := h9.exec₁ 0 (.setDispatched [markOf (paidJsonRecord 30000001)]) (.ok ()) rfl
    (Or.inl ⟨_, _, _, rfl, hmark, rfl⟩) trivial rfl .nil
  have h11 := receive h10 0 collected rfl rfl rfl rfl rfl rfl
  have h12 := deliver h11 0 .begin (.ok ⟨1⟩) rfl ⟨rfl, rfl⟩ rfl (.began ⟨1⟩ 0 3 rfl rfl)
    (.cons ⟨rfl, rfl⟩ ⟨by decide, by decide⟩ .nil)
  have h13 := deliver h12 0 (.record ⟨1⟩ "collecting" paidJson) (.ok true) rfl
    ⟨⟨0, rfl⟩, ?new, rfl⟩ rfl (.same rfl rfl) .nil
  have h14 := deliver h13 0 (.handle () collectedContext) ([invoiceSent], .ok) rfl rfl rfl
    (.same rfl rfl) .nil
  have h15 := deliver h14 0 (.insert ⟨1⟩ [collectedContext.envelopeOf invoiceSent]) (.ok ()) rfl
    ⟨⟨0, rfl⟩, rfl⟩ rfl (.wrote ⟨1⟩ 0 _ ⟨0, rfl⟩ rfl) (.cons ⟨3, [], rfl, rfl⟩ trivial .nil)
  have h16 := deliver h15 0 (.commit ⟨1⟩) (.ok ()) rfl ⟨⟨0, rfl⟩, fun _ => ?first, rfl⟩ rfl
    (.committed ⟨1⟩ 0 ⟨0, Or.inl rfl⟩ rfl)
    (.cons ⟨3, [collectedContext.envelopeOf invoiceSent], rfl, by decide, ?free, rfl⟩ trivial .nil)
  have h17 := deliver h16 0 .ack (.ok ()) rfl rfl (Or.inl rfl) (.same rfl rfl) .nil
  refine ⟨_, _, _, h17, ?_, ?_, rfl, rfl, 0, collected.job, rfl, rfl, rfl, ?_, ?_⟩
  · have inserted : ∀ (key : RowKey) (envelope : Envelope),
        (([collectedContext.envelopeOf invoiceSent].find? fun envelope =>
          (3, envelope.id.uuid) = key).or
            (([paidJson].find? fun envelope => (0, envelope.id.uuid) = key).or none)) = some envelope →
          envelope = collectedContext.envelopeOf invoiceSent ∨ envelope = paidJson := by
      intro key envelope h
      rcases Option.or_eq_some_iff.mp h with hf | ⟨_, hf⟩
      · exact Or.inl (List.mem_singleton.mp (List.mem_of_find?_eq_some hf))
      · rw [Option.or_none] at hf
        exact Or.inr (List.mem_singleton.mp (List.mem_of_find?_eq_some hf))
    rintro key envelope other envelope' ⟨_, h⟩ ⟨_, h'⟩ hid
    rcases inserted key envelope h with rfl | rfl
    · rcases inserted other envelope' h' with rfl | rfl
      · rfl
      · exact absurd hid (by decide)
    · rcases inserted other envelope' h' with rfl | rfl
      · exact absurd hid (by decide)
      · rfl
  · exact ⟨_, hchange, rfl, rfl⟩
  · exact ⟨⟨_, ⟨1⟩, 0⟩, List.mem_singleton_self _, rfl, 0, rfl⟩
  · exact List.mem_singleton_self _
  case new =>
    rintro ⟨_, hr, _⟩
    cases hr
  case first =>
    rintro r hr ht ⟨r', hr', _, i, hc⟩
    cases List.mem_singleton.mp hr'
    cases hc
  case free =>
    intro envelope hm
    rw [List.mem_singleton.mp hm]
    rfl
  case rows =>
    intro rows hrows
    cases hrows
    exact .cons rfl .nil
  case years =>
    intro rows hrows row hrow
    cases hrows
    rw [List.mem_singleton.mp hrow]
    exact ⟨30000001, rfl, hyears, by decide⟩

/-! ## What a deployment does with a message -/

theorem row_of_hasRow (h : Runs uuids times debug endpoints trace s t) {key : RowKey}
    {envelope : Envelope} (hr : s.shared.HasRow key envelope) : s.shared.Row uuids key envelope := by
  obtain ⟨γ, hsound⟩ := sound h
  obtain ⟨hrow, hinserted⟩ := hr
  obtain ⟨row, hrow⟩ := Option.ne_none_iff_exists'.mp hrow
  obtain ⟨other, hother, _, hcolumns⟩ := (hsound.rows key row hrow).envelope
  rw [hinserted, Option.some.injEq] at hother
  exact ⟨row, hrow, hother ▸ hcolumns⟩

/-- What a handled delivery is: a committed transaction, and its rows. -/
theorem transaction_of_handled (h : Runs uuids times debug endpoints trace s t) {i : Nat}
    {endpoint : String} {envelope : Envelope} {published : List Envelope}
    (hh : t.shared.tables.HandledBy i endpoint envelope published) :
    ∃ job transaction, t.shared.tables.deliveries i = some job ∧ job.name = endpoint ∧
      job.delivery.envelope = envelope ∧ t.shared.tables.HandlerCommitted i transaction ∧
      t.shared.tables.rowsIn transaction = published := by
  obtain ⟨job, hd, hname, he, hown, hrun⟩ := hh
  have hconsistent := Inbox.consistent (Consumers.run_tables h.run₂)
  obtain ⟨transaction, ht⟩ := Inbox.Consistent.transaction hconsistent hown
  have hrows := hconsistent.published_eq ht hd (writeOutbox h.run₂ i job hd) hrun rfl
  exact ⟨job, transaction, hd, hname, he, ⟨ht, _, hrun, rfl⟩, hrows.1⟩

/-- What a handled delivery published has rows, all of one transaction. -/
theorem rows_of_handled (h : Runs uuids times debug endpoints trace s t) {endpoint : String}
    {envelope : Envelope} {published : List Envelope}
    (hh : t.shared.tables.Handled endpoint envelope published) :
    ∃ start, ∀ child ∈ published, s.shared.Row uuids (start, child.id.uuid) child := by
  obtain ⟨i, hh⟩ := hh
  obtain ⟨job, transaction, _, _, _, ⟨ht, _⟩, rfl⟩ := transaction_of_handled h hh
  obtain ⟨start, hrows⟩ := (coupled h).rows transaction i ht
  exact ⟨start, fun child hm => row_of_hasRow h (hrows child hm)⟩

/-- At most one delivery of a message is committed for each endpoint. What its handler published has
    rows, all of one transaction, and each row that no application inserted is of a message that such
    a delivery's handler published. -/
theorem handled_once (h : Runs uuids times debug endpoints trace s t) :
    (∀ i j endpoint envelope other published others,
      t.shared.tables.HandledBy i endpoint envelope published →
      t.shared.tables.HandledBy j endpoint other others →
      envelope.id = other.id → envelope.time = other.time →
        i = j ∧ envelope = other ∧ published = others) ∧
    (∀ endpoint envelope published, t.shared.tables.Handled endpoint envelope published →
      ∃ start, ∀ child ∈ published, s.shared.Row uuids (start, child.id.uuid) child) ∧
    ∀ key row, s.shared.table.rows key = some row → ∃ child,
      row.columns = (Postgres.OutboxRow.insert uuids child key.1).columns ∧
      ((∃ application, .inl (.env (.insert application child)) ∈ trace) ∨
        ∃ endpoint envelope published,
          t.shared.tables.Handled endpoint envelope published ∧ child ∈ published) := by
  refine ⟨?_, fun endpoint envelope published hh => rows_of_handled h hh, ?_⟩
  · intro i j endpoint envelope other published others hh hh' hid htime
    obtain ⟨job, transaction, hd, rfl, rfl, hc, rfl⟩ := transaction_of_handled h hh
    obtain ⟨job', transaction', hd', hname, rfl, hc', rfl⟩ := transaction_of_handled h hh'
    have hkey : job.key = job'.key := by
      unfold InboxDelivery.key receiptKey
      rw [hid, htime, hname]
    have hconsistent := Inbox.consistent (Consumers.run_tables h.run₂)
    obtain ⟨rfl, rfl⟩ := Inbox.Consistent.once hconsistent hd hd' hkey hc hc'
    cases hd.symm.trans hd'
    exact ⟨rfl, rfl, rfl⟩
  · intro key row hrow
    obtain ⟨γ, hsound⟩ := sound h
    obtain ⟨child, hinserted, _, hcolumns⟩ := (hsound.rows key row hrow).envelope
    obtain ⟨root, hroot⟩ := (coupled h).rooted key child ⟨by simp [hrow], hinserted⟩
    refine ⟨child, hcolumns, ?_⟩
    cases hroot with
    | applied application key hm _ => exact Or.inl ⟨application, hm⟩
    | answer endpoint _ hh hm _ => exact Or.inr ⟨endpoint, _, _, hh, hm⟩

theorem handled_once_collected : ∃ (trace : List (DeploymentLabel Unit)) (s : OutboxPool)
    (t : ConsumerPool Unit) (start : Int),
    t.shared.tables.Handled "collecting" paidJson [collectedContext.envelopeOf invoiceSent] ∧
      s.shared.Row .rfc9562 (start, 1) (collectedContext.envelopeOf invoiceSent) ∧
      ∃ child, (Postgres.OutboxRow.insert .rfc9562 (collectedContext.envelopeOf invoiceSent)
          3).columns = (Postgres.OutboxRow.insert .rfc9562 child 3).columns ∧
        ((∃ application, .inl (.env (.insert application child)) ∈ trace) ∨
          ∃ endpoint envelope published,
            t.shared.tables.Handled endpoint envelope published ∧ child ∈ published) := by
  obtain ⟨trace, s, t, h, _, _, hrow, _, hh⟩ := collected_run
  obtain ⟨start, hrows⟩ := (handled_once h).2.1 _ _ _ hh
  exact ⟨trace, s, t, start, hh, hrows _ (List.mem_singleton_self _),
    (handled_once h).2.2 _ _ hrow⟩

/-- Each row of the outbox, and each message that the broker stored, goes back to a row that an
    application inserted, through the messages that handlers published. It has the correlation id
    and the trace context of that row. -/
theorem row_rooted (h : Runs uuids times debug endpoints trace s t) :
    (∀ key row, s.shared.table.rows key = some row → ∃ envelope root,
      row.columns = (Postgres.OutboxRow.insert uuids envelope key.1).columns ∧
      Rooted trace s.shared t.shared.tables root envelope ∧
      envelope.correlation.correlationId = root.correlation.correlationId ∧
      envelope.trace = root.trace) ∧
    ∀ envelope ∈ t.shared.stream, ∃ key root, s.shared.Row uuids key envelope ∧
      Rooted trace s.shared t.shared.tables root envelope ∧
      envelope.correlation.correlationId = root.correlation.correlationId ∧
      envelope.trace = root.trace := by
  obtain ⟨γ, hsound⟩ := sound h
  have hcoupled := coupled h
  constructor
  · intro key row hrow
    obtain ⟨envelope, hinserted, _, hcolumns⟩ := (hsound.rows key row hrow).envelope
    obtain ⟨root, hroot⟩ := hcoupled.rooted key envelope ⟨by simp [hrow], hinserted⟩
    exact ⟨envelope, root, hcolumns, hroot, hroot.same⟩
  · intro envelope hm
    obtain ⟨key, hrow⟩ := hcoupled.stored envelope hm
    obtain ⟨root, hroot⟩ := hcoupled.rooted key envelope hrow
    exact ⟨key, root, row_of_hasRow h hrow, hroot, hroot.same⟩

theorem row_rooted_collected : ∃ (trace : List (DeploymentLabel Unit)) (s : OutboxPool)
    (t : ConsumerPool Unit) (envelope root : Envelope), s.shared.Row .rfc9562 (3, 1) envelope ∧
      Rooted trace s.shared t.shared.tables root envelope ∧ envelope.trace = root.trace := by
  obtain ⟨trace, s, t, h, _, _, hrow, _⟩ := collected_run
  obtain ⟨envelope, root, hcolumns, hroot, _, htrace⟩ := (row_rooted h).1 _ _ hrow
  exact ⟨trace, s, t, envelope, root, ⟨_, hrow, hcolumns⟩, hroot, htrace⟩

/-- A committed receipt is of a message that was handled. -/
theorem handled_of_receipt (h : Runs uuids times debug endpoints trace s t)
    (hids : DistinctIds s.shared) {endpoint : String} {envelope : Envelope}
    (hm : envelope ∈ t.shared.stream)
    (hr : t.shared.tables.ReceiptCommitted (receiptKey endpoint envelope)) :
    ∃ published, t.shared.tables.Handled endpoint envelope published := by
  have hconsistent := Inbox.consistent (Consumers.run_tables h.run₂)
  obtain ⟨r, hr, hkey, hcommitted⟩ := hr
  obtain ⟨⟨job, hd, hof⟩, _⟩ := hconsistent.receipt r hr
  obtain ⟨hname, hid, _⟩ : job.name = endpoint ∧ job.delivery.envelope.id = envelope.id ∧
      job.delivery.envelope.time = envelope.time := by
    simpa [InboxDelivery.key, receiptKey] using hof.symm.trans hkey
  have hown : t.shared.tables.OwnReceiptCommitted r.delivery := ⟨r, hr, rfl, hcommitted⟩
  obtain ⟨transaction, ht⟩ := Inbox.Consistent.transaction hconsistent hown
  have hwritten := hconsistent.written transaction _ _ ht (Or.inl rfl)
  obtain ⟨run, hrun, hi⟩ := hwritten.ran r hr rfl
  have hreturned := hwritten.returned run hrun hi
  -- The receipt's message is the one with this id.
  obtain ⟨key, hrow⟩ := (coupled h).stored envelope hm
  obtain ⟨key', hrow'⟩ :=
    (coupled h).stored _ ((Consumers.streamed h.run₂).delivered r.delivery job hd)
  have hsame := hids _ _ _ _ hrow' hrow hid
  refine ⟨run.published, r.delivery, job, hd, hname, hsame, hown, ?_⟩
  rw [← hi, ← hreturned]
  exact hrun

/-- The message of a dispatched row is on every endpoint with its type. There it waits, or it was
    handled and what its handler published has rows, or its error copy is in the endpoint's error
    destination. -/
theorem dispatched_reaches (h : Runs uuids times debug endpoints trace s t)
    (hids : DistinctIds s.shared) {key : RowKey} {row : Postgres.OutboxRow}
    (hr : s.shared.table.rows key = some row) (hd : row.status = .dispatched) :
    ∃ envelope, row.columns = (Postgres.OutboxRow.insert uuids envelope key.1).columns ∧
      ∀ endpoint ∈ endpoints, envelope.messageType ∈ endpoint.messageTypes →
        ∃ message, t.shared.broker.messages message = some (endpoint.name, envelope) ∧
          (t.shared.broker.left message = false ∨
            (∃ published, t.shared.tables.Handled endpoint.name envelope published ∧
              ∃ start, ∀ child ∈ published, s.shared.Row uuids (start, child.id.uuid) child) ∨
            ∃ delivery error copy, delivery.envelope = envelope ∧
              ErrorCopy endpoint.name delivery error copy ∧
              (endpoint.name, copy) ∈ t.shared.broker.errors) := by
  obtain ⟨γ, hsound⟩ := sound h
  have hcoupled := coupled h
  have hstreamed := Consumers.streamed h.run₂
  obtain ⟨envelope, hinserted, _, hcolumns⟩ := (hsound.rows key row hr).envelope
  obtain ⟨publication, hp, hreply, _, hof⟩ := (hsound.rows key row hr).dispatched hd
  rw [hinserted, Option.some.injEq] at hof
  -- What the broker stored under the id is this message.
  have hstored : envelope ∈ t.shared.stream := by
    obtain ⟨stored, hm, hid⟩ := hcoupled.accepted publication hp hreply
    obtain ⟨key', hrow⟩ := hcoupled.stored stored hm
    rw [← hof] at hid
    rwa [← hids _ _ _ _ hrow ⟨by simp [hr], hinserted⟩ hid]
  refine ⟨envelope, hcolumns, fun endpoint hendpoint htype => ?_⟩
  obtain ⟨message, hmessage⟩ := hstreamed.spread envelope hstored endpoint hendpoint htype
  refine ⟨message, hmessage, ?_⟩
  cases hleft : t.shared.broker.left message with
  | false => exact Or.inl rfl
  | true =>
    rcases Consumers.left_for h.run₂ hmessage hleft with hreceipt | hcopy
    · obtain ⟨published, hh⟩ := handled_of_receipt h hids hstored hreceipt
      exact Or.inr (Or.inl ⟨published, hh, rows_of_handled h hh⟩)
    · exact Or.inr (Or.inr hcopy)

/-- A message of the paid basket's type is on the endpoint. -/
theorem dispatched_reaches_collected : ∃ (s : OutboxPool) (t : ConsumerPool Unit)
    (envelope : Envelope) (message : Nat), s.shared.Row .rfc9562 paidKey envelope ∧
      envelope.messageType = paidJson.messageType ∧
      t.shared.broker.messages message = some ("collecting", envelope) := by
  obtain ⟨trace, s, t, h, hids, ⟨row, hr, hd, hpaid⟩, _⟩ := collected_run
  obtain ⟨envelope, hcolumns, hreaches⟩ := dispatched_reaches h hids hr hd
  have htype : envelope.messageType = paidJson.messageType :=
    MessageType.ext (congrArg Columns.messageType (hcolumns.symm.trans hpaid))
  obtain ⟨message, hmessage, _⟩ := hreaches collecting (List.mem_singleton_self _)
    (List.mem_singleton.mpr htype)
  exact ⟨s, t, envelope, message, ⟨row, hr, hcolumns⟩, htype, hmessage⟩

end Deployment

end SisaMessaging.Runtime
