/-
  At most once: what the inbox's invariant says about handlers, receipts, outbox rows, direct sends
  and acks.
-/
import SisaMessaging.Runtime.InboxInvariant

namespace SisaMessaging.Runtime

open SisaMessaging.Core SisaMessaging.Lib

variable {Msg : Type}

namespace Inbox

/-! ## At most once -/

def isCommitted (s : Inbox Msg) (t : Transaction) : Bool :=
  match s.transactions t with
  | some (_, .committed) => true
  | _ => false

/-- The envelopes that delivery `i` wrote to the outbox and that are committed. -/
def committedRows (s : Inbox Msg) (i : Nat) : List Envelope :=
  ((s.rowsOf i).filter fun row => s.isCommitted row.transaction).map (·.envelope)

/-- The receipt of delivery `i`'s own is committed. -/
def OwnReceiptCommitted (s : Inbox Msg) (i : Nat) : Prop :=
  ∃ r ∈ s.receipts, r.delivery = i ∧ s.Committed r.transaction

/-- `t` is a committed transaction of delivery `i` with a handler run. -/
def HandlerCommitted (s : Inbox Msg) (i : Nat) (t : Transaction) : Prop :=
  s.transactions t = some (i, .committed) ∧ ∃ run ∈ s.runs, run.delivery = i

/-- What an inbox is for. -/
structure AtMostOnce (s : Inbox Msg) : Prop where
  /-- At most one handler transaction is committed for an endpoint, message id and time. -/
  once : ∀ i j t u job other, s.deliveries i = some job → s.deliveries j = some other →
    job.key = other.key → s.HandlerCommitted i t → s.HandlerCommitted j u → i = j ∧ t = u
  /-- An acked delivery's message has a committed receipt. -/
  acked : ∀ i ∈ s.acked, ∀ job, s.deliveries i = some job → s.ReceiptCommitted job.key
  /-- With an outbox, a run's rows are committed exactly with its receipt, and nothing that it
      published is sent directly. -/
  outbox : ∀ run ∈ s.runs, ∀ job, s.deliveries run.delivery = some job → job.outbox = .store →
    (s.OwnReceiptCommitted run.delivery → s.committedRows run.delivery = run.published) ∧
    (¬ s.OwnReceiptCommitted run.delivery → s.committedRows run.delivery = []) ∧
    ∀ envelope, (run.delivery, envelope) ∉ s.sent
  /-- A handler runs only for the delivery that wrote the receipt. -/
  recorded : ∀ run ∈ s.runs, s.HasReceipt run.delivery
  /-- A committed receipt is of a delivery whose handler ran and returned. -/
  returned : ∀ i, s.OwnReceiptCommitted i →
    ∃ run ∈ s.runs, run.delivery = i ∧ run.returned = true
  /-- A run whose receipt isn't committed leaves no row, sends nothing and isn't acked. -/
  undone : ∀ run ∈ s.runs, ¬ s.OwnReceiptCommitted run.delivery →
    s.committedRows run.delivery = [] ∧ (∀ envelope, (run.delivery, envelope) ∉ s.sent) ∧
    run.delivery ∉ s.acked

section AtMostOnce

variable {s : Inbox Msg} {i : Nat} {t : Transaction}

theorem isCommitted_eq_true : s.isCommitted t = true ↔ s.Committed t := by
  unfold isCommitted Committed
  split
  · rename_i i h
    exact ⟨fun _ => ⟨i, h⟩, fun _ => rfl⟩
  · rename_i h
    constructor
    · intro hf
      cases hf
    · rintro ⟨i, hi⟩
      exact absurd hi (h i)

/-- A delivery's rows are all in its one transaction. -/
theorem Consistent.committedRows_eq (h : s.Consistent) (ht : s.transactions t = some (i, .committed)) :
    s.committedRows i = (s.rowsOf i).map (·.envelope) := by
  unfold committedRows
  rw [List.filter_eq_self.mpr]
  intro row hrow
  obtain ⟨hm, hi⟩ := List.mem_filter.mp hrow
  obtain ⟨status, hrt⟩ := h.row row hm
  rw [decide_eq_true_eq] at hi
  rw [hi] at hrt
  rw [h.single _ _ i _ _ hrt ht, isCommitted_eq_true]
  exact ⟨i, ht⟩

theorem Consistent.ownReceiptCommitted (h : s.Consistent) (hr : s.HasReceipt i)
    (ht : s.transactions t = some (i, .committed)) : s.OwnReceiptCommitted i := by
  obtain ⟨r, hm, rfl⟩ := hr
  obtain ⟨_, status, hrt⟩ := h.receipt r hm
  refine ⟨r, hm, rfl, r.delivery, ?_⟩
  rwa [h.single _ _ _ _ _ hrt ht]

theorem Consistent.transaction (h : s.Consistent) (ho : s.OwnReceiptCommitted i) :
    ∃ t, s.transactions t = some (i, .committed) := by
  obtain ⟨r, hm, rfl, k, hc⟩ := ho
  obtain ⟨_, status, hrt⟩ := h.receipt r hm
  rw [hrt, Option.some.injEq, Prod.mk.injEq] at hc
  rw [hc.2] at hrt
  exact ⟨_, hrt⟩

theorem Consistent.committedRows_nil (h : s.Consistent) (hr : s.HasReceipt i)
    (ho : ¬ s.OwnReceiptCommitted i) : s.committedRows i = [] := by
  unfold committedRows
  rw [List.map_eq_nil_iff, List.filter_eq_nil_iff]
  intro row hrow hc
  obtain ⟨hm, hi⟩ := List.mem_filter.mp hrow
  obtain ⟨status, hrt⟩ := h.row row hm
  rw [decide_eq_true_eq] at hi
  obtain ⟨k, hc⟩ := isCommitted_eq_true.mp hc
  rw [hi, hc, Option.some.injEq, Prod.mk.injEq] at hrt
  rw [hrt.1] at hc
  exact ho (h.ownReceiptCommitted hr hc)

theorem Consistent.once (h : s.Consistent) {j : Nat} {u : Transaction}
    {job other : InboxDelivery Msg} (hi : s.deliveries i = some job)
    (hj : s.deliveries j = some other) (hkey : job.key = other.key)
    (ht : s.HandlerCommitted i t) (hu : s.HandlerCommitted j u) : i = j ∧ t = u := by
  -- Each run's receipt is in its transaction, with the message's key.
  have own : ∀ k v job', s.deliveries k = some job' → s.HandlerCommitted k v →
      ∃ r ∈ s.receipts, r.key = job'.key ∧ r.transaction = v := by
    rintro k v job' hk ⟨hv, run, hrun, rfl⟩
    obtain ⟨r, hr, hd⟩ := h.run run hrun
    obtain ⟨⟨job'', hd', hkey'⟩, status, hrt⟩ := h.receipt r hr
    rw [hd] at hd' hrt
    rw [hk, Option.some.injEq] at hd'
    exact ⟨r, hr, by rw [hkey', hd'], h.single _ _ _ _ _ hrt hv⟩
  obtain ⟨r, hr, hk, rfl⟩ := own i t job hi ht
  obtain ⟨r', hr', hk', rfl⟩ := own j u other hj hu
  have hsame := h.unique r hr r' hr' (by rw [hk, hk', hkey]) ⟨i, ht.1⟩ ⟨j, hu.1⟩
  have hij := ht.1
  rw [hsame, hu.1, Option.some.injEq, Prod.mk.injEq] at hij
  exact ⟨hij.1.symm, hsame⟩

theorem Consistent.atMostOnce (h : s.Consistent) : s.AtMostOnce where
  once i j t u job other hi hj hkey ht hu := h.once hi hj hkey ht hu
  acked i hi := (h.acked i hi).2
  outbox := by
    intro run hrun job hd ho
    refine ⟨?_, h.committedRows_nil (h.run run hrun), ?_⟩
    · intro hown
      obtain ⟨t, ht⟩ := h.transaction hown
      rw [h.committedRows_eq ht]
      exact (h.written t _ _ ht (Or.inl rfl)).rows job hd ho run hrun rfl
    · intro envelope hm
      have := (h.sent _ envelope hm).2 job hd
      rw [ho] at this
      cases this
  recorded run hrun := h.run run hrun
  returned := by
    intro i hown
    obtain ⟨t, ht⟩ := h.transaction hown
    have hw := h.written t i _ ht (Or.inl rfl)
    obtain ⟨r, hr, hi, _⟩ := hown
    obtain ⟨run, hrun, hd⟩ := hw.ran r hr hi
    exact ⟨run, hrun, hd, hw.returned run hrun hd⟩
  undone := by
    intro run hrun hown
    refine ⟨h.committedRows_nil (h.run run hrun) hown, ?_, ?_⟩
    · intro envelope hm
      obtain ⟨⟨t, ht⟩, _⟩ := h.sent _ envelope hm
      exact hown (h.ownReceiptCommitted (h.run run hrun) ht)
    · intro hm
      obtain ⟨⟨t, ht⟩, _⟩ := h.acked _ hm
      exact hown (h.ownReceiptCommitted (h.run run hrun) ht)

end AtMostOnce

end Inbox

/-- In every state of every run of deliveries over one inbox, whatever fails and whenever a
    delivery stops, messages are handled at most once. -/
theorem inbox_atMostOnce
    (st : System.State Nat (Op Msg) (Ret Msg) (InboxDelivery Msg) (Inbox Msg))
    (h : (inbox Msg).Reach Inbox.Empty (fun _ _ => True) st) : st.shared.AtMostOnce :=
  (Inbox.consistent h).atMostOnce

/-! ## A redelivery after a commit that reported an error -/

/-- A delivery of the message to `billing`, which handles it and publishes with an outbox. -/
def billed : InboxDelivery Unit where
  name := "billing"
  retry := .default
  handlers := [(orderShipped.messageType, .typed ⟨fun _ => .returned (.ok ())⟩)]
  outbox := .store
  source := billing
  delivery := ⟨orderShipped, 1⟩

def invoiceSent : Encoded where
  id := ⟨1⟩
  time := .fromUnixNanos 1
  messageType := ⟨"billing.invoice_sent.v1", by decide⟩
  data := []

/-- The first delivery's commit reports an error although it committed, and the message comes
    again: the second finds the receipt and is acked. -/
theorem inbox_atMostOnce_redelivered :
    ∃ (context : HandlerContext (Option Transaction))
      (st : System.State Nat (Op Unit) (Ret Unit) (InboxDelivery Unit) (Inbox Unit)),
      st.shared.acked = [1] ∧ st.shared.committedRows 0 = [context.envelopeOf invoiceSent] ∧
      st.shared.AtMostOnce := by
  let context : HandlerContext (Option Transaction) :=
    ⟨billed.source, "billing", orderShipped, 1, [], some ⟨0⟩⟩
  have h0 : (inbox Unit).Reach Inbox.Empty (fun _ _ => True)
      ⟨fun _ => none, fun _ => none, fun _ => none, [], [], [], [], []⟩ :=
    .init ⟨fun _ => rfl, fun _ => rfl, rfl, rfl, rfl, rfl, rfl⟩
  have h1 := h0.launch 0 billed rfl ⟨rfl, rfl⟩ trivial
  have h2 := h1.exec 0 .begin (.ok ⟨0⟩) rfl ⟨rfl, rfl⟩ trivial
  have h3 := h2.exec 0 (.record ⟨0⟩ "billing" orderShipped) (.ok true) rfl
    ⟨⟨0, rfl⟩, fun ⟨_, hr, _⟩ => List.not_mem_nil hr, rfl⟩ trivial
  have h4 := h3.exec 0 (.handle () context) ([invoiceSent], .ok) rfl rfl trivial
  have h5 := h4.exec 0 (.insert ⟨0⟩ [context.envelopeOf invoiceSent]) (.ok ()) rfl
    ⟨⟨0, rfl⟩, rfl⟩ trivial
  have h6 := h5.exec 0 (.commit ⟨0⟩)
    (.error (.database "committing an inbox transaction" "connection closed")) rfl
    (Or.inr ⟨⟨0, rfl⟩, .committed, ⟨fun _ => ?first, rfl⟩⟩) trivial
  have h7 := h6.exec 0 (.retry (billed.retry.delay 1)) (.ok ()) rfl rfl trivial
  have h8 := h7.launch 1 billed rfl ⟨rfl, rfl⟩ trivial
  have h9 := h8.exec 1 .begin (.ok ⟨1⟩) rfl ⟨rfl, rfl⟩ trivial
  have h10 := h9.exec 1 (.record ⟨1⟩ "billing" orderShipped) (.ok false) rfl
    ⟨⟨1, rfl⟩, ⟨_, List.mem_singleton.mpr rfl, rfl, 0, rfl⟩, rfl⟩ trivial
  have h11 := h10.exec 1 (.commit ⟨1⟩) (.ok ()) rfl
    ⟨⟨1, rfl⟩, fun _ => ?second, rfl⟩ trivial
  have h12 := h11.exec 1 .ack (.ok ()) rfl rfl trivial
  exact ⟨context, _, rfl, rfl, inbox_atMostOnce _ h12⟩
  case first =>
    rintro r - - ⟨r', hr', _, i, hc⟩
    cases List.mem_singleton.mp hr'
    cases hc
  case second =>
    intro r hr ht
    cases List.mem_singleton.mp hr
    cases ht

end SisaMessaging.Runtime
