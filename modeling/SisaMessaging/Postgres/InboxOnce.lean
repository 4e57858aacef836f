/-
  At most once over PostgreSQL: what the refinement of the inbox's contract says about the database.

  A handler that swallows a failed statement leaves its transaction aborted; the statement before the
  commit then fails, and the delivery isn't acked.
-/
import SisaMessaging.Postgres.InboxRuns

namespace SisaMessaging.Postgres

open SisaMessaging.Core SisaMessaging.Lib SisaMessaging.Runtime

variable {Msg : Type}

namespace SqlInbox

/-- `t` is a committed transaction of delivery `i` with a handler run. -/
def HandlerCommitted (s : SqlInbox Msg) (i : Nat) (t : Transaction) : Prop :=
  s.sessions t = some (i, .committed) ∧ ∃ run ∈ s.runs, run.delivery = i

/-- What an inbox is for, said of the database. -/
structure HandledOnce (s : SqlInbox Msg) : Prop where
  /-- At most one handler transaction is committed for an endpoint and message id. -/
  once : ∀ i j t u job other, s.deliveries i = some job → s.deliveries j = some other →
    job.name = other.name → job.delivery.envelope.id = other.delivery.envelope.id →
    s.HandlerCommitted i t → s.HandlerCommitted j u → i = j ∧ t = u
  /-- A delivery that is acked committed its transaction, and its message has a committed receipt. -/
  acked : ∀ i ∈ s.acked, (∃ t, s.sessions t = some (i, .committed)) ∧
    ∀ job, s.deliveries i = some job → ∃ r ∈ s.receipts, s.Committed r.1 ∧
      r.2.endpoint = job.name ∧ r.2.messageId = job.delivery.envelope.id.uuid
  /-- A handler whose transaction is committed returned and, with an outbox, the transaction's rows
      are exactly what it published. -/
  rows : ∀ i t, s.sessions t = some (i, .committed) → ∀ run ∈ s.runs, run.delivery = i →
    run.returned = true ∧ ∀ job, s.deliveries i = some job → job.outbox = .store →
      s.rowsIn t = run.published
  /-- A committed receipt is of a delivery whose handler ran and returned. -/
  receipts : ∀ r ∈ s.receipts, s.Committed r.1 → ∃ i, s.sessions r.1 = some (i, .committed) ∧
    ∃ run ∈ s.runs, run.delivery = i ∧ run.returned = true
  /-- Direct sends come after the commit, and only without an outbox. -/
  sent : ∀ i envelope, (i, envelope) ∈ s.sent → (∃ t, s.sessions t = some (i, .committed)) ∧
    ∀ job, s.deliveries i = some job → job.outbox = .noOutbox

end SqlInbox

section Runs

variable {times : PgTimes} {uuids : UuidFormat} {store : InboxDelivery Msg → PostgresInbox}

namespace Agrees

variable {st' : SqlPool Msg} {st : Inbox.Pool Msg} {i : Nat} {t : Transaction}

theorem committed_iff (h : Agrees st' st) :
    st.shared.transactions t = some (i, .committed) ↔ st'.shared.sessions t = some (i, .committed) := by
  rw [h.transactions, Option.map_eq_some_iff]
  constructor
  · rintro ⟨⟨k, stage⟩, hs, he⟩
    cases stage <;> cases he
    exact hs
  · exact fun hs => ⟨_, hs, rfl⟩

theorem handledOnce (h : Agrees st' st) (hs : st.shared.Consistent)
    (htime : ∀ i j job other, st.shared.deliveries i = some job → st.shared.deliveries j = some other →
      job.delivery.envelope.id = other.delivery.envelope.id →
        job.delivery.envelope.time = other.delivery.envelope.time) :
    st'.shared.HandledOnce where
  once := by
    rintro i j t u job other hi hj hname hid ⟨ht, hrun⟩ ⟨hu, hother⟩
    rw [← h.deliveries] at hi hj
    rw [← h.runs] at hrun hother
    have hkey : job.key = other.key := by
      unfold InboxDelivery.key receiptKey
      rw [hname, hid, htime i j job other hi hj hid]
    exact hs.once hi hj hkey ⟨h.committed_iff.mpr ht, hrun⟩ ⟨h.committed_iff.mpr hu, hother⟩
  acked := by
    intro i hi
    rw [← h.acked] at hi
    obtain ⟨⟨t, ht⟩, hreceipt⟩ := hs.acked i hi
    refine ⟨⟨t, h.committed_iff.mp ht⟩, fun job hjob => ?_⟩
    rw [← h.deliveries] at hjob
    obtain ⟨r, hr, hkey, k, hk⟩ := hreceipt job hjob
    obtain ⟨row, hrow, htransaction, hend, hid, _⟩ := forall₂_mem_right h.receipts hr
    rw [hkey] at hend hid
    refine ⟨row, hrow, ⟨k, ?_⟩, hend, hid⟩
    rw [htransaction]
    exact h.committed_iff.mp hk
  rows := by
    intro i t ht run hrun hi
    rw [← h.runs] at hrun
    have hw := hs.written t i _ (h.committed_iff.mpr ht) (Or.inl rfl)
    refine ⟨hw.returned run hrun hi, fun job hjob hstore => ?_⟩
    rw [← h.deliveries] at hjob
    rw [h.rows i t ht]
    exact hw.rows job hjob hstore run hrun hi
  receipts := by
    rintro row hrow ⟨k, hk⟩
    obtain ⟨r, hr, htransaction, _⟩ := forall₂_mem_left h.receipts hrow
    obtain ⟨_, status, hrt⟩ := hs.receipt r hr
    rw [htransaction] at hk
    have hcommitted := h.committed_iff.mpr hk
    cases hrt.symm.trans hcommitted
    have hw := hs.written _ _ _ hcommitted (Or.inl rfl)
    obtain ⟨run, hrun, hi⟩ := hw.ran r hr rfl
    rw [htransaction, ← h.runs]
    exact ⟨r.delivery, hk, run, hrun, hi, hw.returned run hrun hi⟩
  sent := by
    intro i envelope hm
    rw [← h.sent] at hm
    obtain ⟨⟨t, ht⟩, hjob⟩ := hs.sent i envelope hm
    refine ⟨⟨t, h.committed_iff.mp ht⟩, fun job hd => ?_⟩
    rw [← h.deliveries] at hd
    exact hjob job hd

end Agrees

/-- In every run over PostgreSQL, whatever statement fails, whoever the connections are lost to and
    wherever a delivery stops, messages are handled at most once. -/
theorem sqlInbox_handledOnce (st : SqlPool Msg)
    (h : (sqlInbox times uuids store).Reach SqlInbox.Empty UniqueIds st) : st.shared.HandledOnce := by
  obtain ⟨_, done, hreach, hf, hR⟩ := h.refined sqlInbox_refines fun _ h0 => represents_empty h0
  exact (hR.agrees hreach hf).handledOnce (Inbox.consistent hreach) hR.oneTime

end Runs

/-- The first handler swallows a failed statement, so the check before its commit fails and the message
    comes again: the second delivery handles it and is acked. -/
theorem sqlInbox_handledOnce_swallowed : ∃ (context : HandlerContext (Option Transaction))
    (st : SqlPool Unit), st.shared.acked = [1] ∧ st.shared.sessions ⟨0⟩ = some (0, .rolledBack) ∧
      st.shared.rows = [(⟨1⟩, context.envelopeOf invoiceSent)] ∧ st.shared.HandledOnce := by
  let context (t : Transaction) : HandlerContext (Option Transaction) :=
    ⟨billed.source, "billing", orderShipped, 1, [], some t⟩
  let receipt (id : MessageId) := PostgresInbox.new.receipt .rfc9562 id "billing" orderShipped
  have h0 : (sqlInbox .utc .rfc9562 fun _ : InboxDelivery Unit => .new).Reach SqlInbox.Empty UniqueIds
      ⟨fun _ => none, fun _ => none, fun _ => none, [], [], [], [], []⟩ :=
    .init ⟨fun _ => rfl, fun _ => rfl, rfl, rfl, rfl, rfl, rfl⟩
  have h1 := h0.launch 0 billed rfl ⟨rfl, rfl⟩ ?first
  have h2 := h1.exec 0 .begin (.ok ⟨0⟩) rfl ⟨rfl, rfl⟩ trivial
  have h3 := h2.exec 0 .newId ⟨7⟩ rfl rfl trivial
  have h4 := h3.exec 0 (.insertReceipt ⟨0⟩ (receipt ⟨7⟩)) (.ok 1) rfl
    ⟨⟨0, rfl⟩, PgTimes.utc_cast_toText _, Or.inl ⟨rfl, ?free, rfl⟩⟩ ?ids
  have h5 := h4.exec 0 (.pass (.handle () (context ⟨0⟩))) ([], .ok) rfl
    ⟨_, Or.inr ⟨⟨0⟩, rfl, rfl⟩, rfl⟩ trivial
  have h6 := h5.exec 0 (.check ⟨0⟩) (.error "current transaction is aborted") rfl (Or.inl rfl) trivial
  have h7 := h6.exec 0 (.pass (.retry (billed.retry.delay 1))) (.ok ()) rfl rfl trivial
  have h8 := h7.env ⟨0⟩ (Or.inr (Or.inl ⟨0, rfl, rfl⟩)) trivial
  have h9 := h8.launch 1 billed rfl ⟨rfl, rfl⟩ ?again
  have h10 := h9.exec 1 .begin (.ok ⟨1⟩) rfl ⟨rfl, rfl⟩ trivial
  have h11 := h10.exec 1 .newId ⟨8⟩ rfl rfl trivial
  have h12 := h11.exec 1 (.insertReceipt ⟨1⟩ (receipt ⟨8⟩)) (.ok 1) rfl
    ⟨⟨1, rfl⟩, PgTimes.utc_cast_toText _, Or.inl ⟨rfl, ?rolled, rfl⟩⟩ ?others
  have h13 := h12.exec 1 (.pass (.handle () (context ⟨1⟩))) ([invoiceSent], .ok) rfl
    ⟨_, Or.inl rfl, rfl⟩ trivial
  have h14 := h13.exec 1 (.insertRow ⟨1⟩ ((context ⟨1⟩).envelopeOf invoiceSent)) (.ok ()) rfl
    ⟨⟨1, rfl⟩, rfl⟩ trivial
  have h15 := h14.exec 1 (.check ⟨1⟩) (.ok ()) rfl ⟨⟨1, rfl⟩, rfl⟩ trivial
  have h16 := h15.exec 1 (.commit ⟨1⟩) (.ok ()) rfl (Or.inl ⟨1, rfl, rfl⟩) trivial
  have h17 := h16.exec 1 (.pass .ack) (.ok ()) rfl rfl trivial
  exact ⟨context ⟨1⟩, _, rfl, rfl, rfl, sqlInbox_handledOnce _ h17⟩
  case first =>
    intro i other hi
    cases hi
  case free | ids =>
    intro r hr
    cases hr
  case again =>
    intro i other hi _
    rcases System.update_eq_some.mp hi with ⟨_, hi⟩ | ⟨_, hi⟩
    · cases hi
      rfl
    · cases hi
  case rolled =>
    intro r hr _
    obtain rfl := List.mem_singleton.mp hr
    exact ⟨0, rfl⟩
  case others =>
    intro r hr
    obtain rfl := List.mem_singleton.mp hr
    exact fun h => nomatch h

end SisaMessaging.Postgres
