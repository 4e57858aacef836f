/-
  What holds in every state of the inbox.

  `Consistent` is what holds of the tables, and `Fits` what a delivery knows of its transaction in
  each phase. Each change of the tables keeps both: the acting delivery's phase moves on, and the
  others don't notice (`Later`).
-/
import SisaMessaging.Runtime.Inbox

namespace SisaMessaging.Runtime

open SisaMessaging.Core SisaMessaging.Lib

variable {Msg : Type}

namespace Inbox

/-! ## The invariant -/

/-- The rows delivery `i` wrote. -/
def rowsOf (s : Inbox Msg) (i : Nat) : List OutboxRow := s.rows.filter fun row => row.delivery = i

/-- If delivery `i` wrote a receipt, its handler returned and, with an outbox, what it published is
    there. -/
structure Written (s : Inbox Msg) (i : Nat) : Prop where
  ran : ∀ r ∈ s.receipts, r.delivery = i → ∃ run ∈ s.runs, run.delivery = i
  returned : ∀ run ∈ s.runs, run.delivery = i → run.returned = true
  rows : ∀ job, s.deliveries i = some job → job.outbox = .store → ∀ run ∈ s.runs,
    run.delivery = i → (s.rowsOf i).map (·.envelope) = run.published

/-- Transactions and acks play no part in it. -/
theorem Written.same {s s' : Inbox Msg} {i : Nat} (h : s.Written i)
    (hd : s'.deliveries = s.deliveries) (hr : s'.receipts = s.receipts)
    (hrows : s'.rows = s.rows) (hruns : s'.runs = s.runs) : s'.Written i where
  ran := by
    rw [hr, hruns]
    exact h.ran
  returned := by
    rw [hruns]
    exact h.returned
  rows := by
    unfold rowsOf
    rw [hd, hrows, hruns]
    exact h.rows

/-- What holds of the tables. -/
structure Consistent (s : Inbox Msg) : Prop where
  /-- Transactions are of deliveries. -/
  known : ∀ t i status, s.transactions t = some (i, status) → ∃ job, s.deliveries i = some job
  /-- A delivery has one transaction. -/
  single : ∀ t t' i status status', s.transactions t = some (i, status) →
    s.transactions t' = some (i, status') → t = t'
  /-- A receipt is of its delivery's message, in its delivery's transaction. -/
  receipt : ∀ r ∈ s.receipts, (∃ job, s.deliveries r.delivery = some job ∧ r.key = job.key) ∧
    ∃ status, s.transactions r.transaction = some (r.delivery, status)
  /-- Committed receipts are unique. -/
  unique : ∀ r ∈ s.receipts, ∀ r' ∈ s.receipts, r.key = r'.key → s.Committed r.transaction →
    s.Committed r'.transaction → r.transaction = r'.transaction
  /-- A row is in its delivery's transaction. -/
  row : ∀ row ∈ s.rows, ∃ status, s.transactions row.transaction = some (row.delivery, status)
  /-- A handler runs after its delivery's receipt. -/
  run : ∀ run ∈ s.runs, ∃ r ∈ s.receipts, r.delivery = run.delivery
  /-- A transaction that committed or may commit is complete. -/
  written : ∀ t i status, s.transactions t = some (i, status) →
    status = .committed ∨ status = .unresolved → s.Written i
  /-- Direct sends come after the commit, and only without an outbox. -/
  sent : ∀ i envelope, (i, envelope) ∈ s.sent → (∃ t, s.transactions t = some (i, .committed)) ∧
    ∀ job, s.deliveries i = some job → job.outbox = .noOutbox
  /-- An ack comes after the commit, with a receipt. -/
  acked : ∀ i ∈ s.acked, (∃ t, s.transactions t = some (i, .committed)) ∧
    ∀ job, s.deliveries i = some job → s.ReceiptCommitted job.key

/-- The transaction is `i`'s, and nobody asked to commit it. -/
def Holds (s : Inbox Msg) (i : Nat) (t : Transaction) : Prop :=
  s.transactions t = some (i, .running) ∨ s.transactions t = some (i, .rolledBack)

theorem Holds.not_ended {s : Inbox Msg} {i : Nat} {t t' : Transaction} {status : Status}
    (ht : s.Holds i t) (h : s.Consistent) (ht' : s.transactions t' = some (i, status)) :
    ¬ (status = .committed ∨ status = .unresolved) := by
  have he : t' = t := by
    rcases ht with ht | ht
    · exact h.single t' t i _ _ ht' ht
    · exact h.single t' t i _ _ ht' ht
  subst he
  rcases ht with ht | ht
  all_goals
    rw [ht', Option.some.injEq, Prod.mk.injEq] at ht
    rw [ht.2]
    simp

/-- Delivery `i` wrote no receipt. -/
def NoReceipt (s : Inbox Msg) (i : Nat) : Prop := ∀ r ∈ s.receipts, r.delivery ≠ i

/-- The handler of delivery `i` hasn't run. -/
def Untouched (s : Inbox Msg) (i : Nat) : Prop :=
  (∀ run ∈ s.runs, run.delivery ≠ i) ∧ s.rowsOf i = []

/-- The handler of delivery `i` returned, and published. -/
def Published (s : Inbox Msg) (i : Nat) (published : List Envelope) : Prop :=
  (∃ run ∈ s.runs, run.delivery = i) ∧
    ∀ run ∈ s.runs, run.delivery = i → run.published = published ∧ run.returned = true

def HasReceipt (s : Inbox Msg) (i : Nat) : Prop := ∃ r ∈ s.receipts, r.delivery = i

/-- What delivery `i` knows in each phase. -/
def Fits (s : Inbox Msg) (i : Nat) (job : InboxDelivery Msg) : Phase → Prop
  | .started => (∀ t status, s.transactions t ≠ some (i, status)) ∧ s.Untouched i ∧
    s.NoReceipt i
  | .begun t => s.Holds i t ∧ s.Untouched i ∧ s.NoReceipt i
  | .found t => s.Holds i t ∧ s.Untouched i ∧ s.NoReceipt i ∧ s.ReceiptCommitted job.key
  | .recorded t => s.Holds i t ∧ s.Untouched i ∧ s.HasReceipt i
  | .ran t published =>
    s.Holds i t ∧ s.HasReceipt i ∧ s.Published i published ∧ s.rowsOf i = []
  | .wrote t published => s.Holds i t ∧ s.HasReceipt i ∧ s.Published i published ∧
    (s.rowsOf i).map (·.envelope) = published
  | .doomed t => s.Holds i t
  | .done t held => s.transactions t = some (i, .committed) ∧ s.ReceiptCommitted job.key ∧
    (job.outbox = .noOutbox ∨ held = [])
  | .failed => True

/-- What a change by others leaves of delivery `i`'s. -/
structure Later (s s' : Inbox Msg) (i : Nat) : Prop where
  fresh : (∀ t status, s.transactions t ≠ some (i, status)) →
    ∀ t status, s'.transactions t ≠ some (i, status)
  holds : ∀ t, s.Holds i t → s'.Holds i t
  committed : ∀ t k, s.transactions t = some (k, .committed) →
    s'.transactions t = some (k, .committed)
  receipts : s.receipts ⊆ s'.receipts
  wrote : ∀ r ∈ s'.receipts, r.delivery = i → r ∈ s.receipts
  ran : s.runs ⊆ s'.runs
  runs : ∀ run ∈ s'.runs, run.delivery = i → run ∈ s.runs
  rows : s'.rowsOf i = s.rowsOf i

theorem ReceiptCommitted.later {s s' : Inbox Msg} {key : ReceiptKey}
    (h : s.ReceiptCommitted key)
    (hc : ∀ t k, s.transactions t = some (k, .committed) → s'.transactions t = some (k, .committed))
    (hr : s.receipts ⊆ s'.receipts) : s'.ReceiptCommitted key := by
  obtain ⟨r, hm, hk, i, ht⟩ := h
  exact ⟨r, hr hm, hk, i, hc _ _ ht⟩

theorem Untouched.later {s s' : Inbox Msg} {i : Nat} (h : s.Untouched i) (hl : s.Later s' i) :
    s'.Untouched i :=
  ⟨fun run hrun hi => h.1 run (hl.runs run hrun hi) hi, hl.rows.trans h.2⟩

theorem HasReceipt.later {s s' : Inbox Msg} {i : Nat} (h : s.HasReceipt i) (hl : s.Later s' i) :
    s'.HasReceipt i := by
  obtain ⟨r, hm, hi⟩ := h
  exact ⟨r, hl.receipts hm, hi⟩

theorem NoReceipt.later {s s' : Inbox Msg} {i : Nat} (h : s.NoReceipt i) (hl : s.Later s' i) :
    s'.NoReceipt i :=
  fun r hr hi => h r (hl.wrote r hr hi) hi

theorem Published.later {s s' : Inbox Msg} {i : Nat} {published : List Envelope}
    (h : s.Published i published) (hl : s.Later s' i) : s'.Published i published := by
  obtain ⟨⟨run, hrun, hi⟩, hall⟩ := h
  exact ⟨⟨run, hl.ran hrun, hi⟩, fun run hrun hi => hall run (hl.runs run hrun hi) hi⟩

/-- A delivery keeps what it knows while others act. -/
theorem Fits.later {s s' : Inbox Msg} {i : Nat} {job : InboxDelivery Msg} {g : Phase}
    (h : s.Fits i job g) (hl : s.Later s' i) : s'.Fits i job g := by
  cases g with
  | started => exact ⟨hl.fresh h.1, h.2.1.later hl, h.2.2.later hl⟩
  | begun t => exact ⟨hl.holds t h.1, h.2.1.later hl, h.2.2.later hl⟩
  | found t =>
    exact ⟨hl.holds t h.1, h.2.1.later hl, h.2.2.1.later hl,
      h.2.2.2.later hl.committed hl.receipts⟩
  | recorded t => exact ⟨hl.holds t h.1, h.2.1.later hl, h.2.2.later hl⟩
  | ran t published =>
    exact ⟨hl.holds t h.1, h.2.1.later hl, h.2.2.1.later hl, hl.rows.trans h.2.2.2⟩
  | wrote t published =>
    refine ⟨hl.holds t h.1, h.2.1.later hl, h.2.2.1.later hl, ?_⟩
    rw [hl.rows]
    exact h.2.2.2
  | doomed t => exact hl.holds t h
  | done t held =>
    exact ⟨hl.committed t i h.1, h.2.1.later hl.committed hl.receipts, h.2.2⟩
  | failed => trivial

/-- Every delivery there fits its phase, and the tables are consistent. -/
def Invariant (s : Inbox Msg) (phases : Nat → Option (InboxDelivery Msg × Phase)) : Prop :=
  s.Consistent ∧ ∀ i job g, phases i = some (job, g) →
    s.deliveries i = some job ∧ s.Fits i job g

/-! ## What each change keeps -/

section Changes

variable {s : Inbox Msg} {i j : Nat} {t : Transaction}

/-- Changes that leave the transactions alone. -/
theorem Later.of_transactions {s' : Inbox Msg} (ht : s'.transactions = s.transactions)
    (hr : ∃ more, s'.receipts = s.receipts ++ more ∧ ∀ r ∈ more, r.delivery ≠ j)
    (hruns : ∃ more, s'.runs = s.runs ++ more ∧ ∀ run ∈ more, run.delivery ≠ j)
    (hrows : s'.rowsOf j = s.rowsOf j) : s.Later s' j := by
  obtain ⟨receipts, hr, hrn⟩ := hr
  obtain ⟨runs, hruns, hn⟩ := hruns
  constructor
  · intro h
    rwa [ht]
  · intro t h
    unfold Holds
    rwa [ht]
  · intro t k h
    rwa [ht]
  · rw [hr]
    exact List.subset_append_left _ _
  · intro r hm hj
    rw [hr] at hm
    exact (List.mem_append.mp hm).resolve_right fun hm => hrn r hm hj
  · rw [hruns]
    exact List.subset_append_left _ _
  · intro run hm hj
    rw [hruns] at hm
    exact (List.mem_append.mp hm).resolve_right fun hm => hn run hm hj
  · exact hrows

/-- The receipts or the runs stay. -/
theorem unchanged {α : Type} (p : α → Prop) (l : List α) : ∃ more, l = l ++ more ∧ ∀ a ∈ more, p a :=
  ⟨[], by simp, by simp⟩

theorem later_addReceipt {key : ReceiptKey} (hj : j ≠ i) :
    s.Later (s.addReceipt ⟨key, t, i⟩) j :=
  .of_transactions rfl ⟨_, rfl, by simpa using hj.symm⟩ (unchanged _ _) rfl

theorem later_addRun {published : List Envelope} {returned : Bool} (hj : j ≠ i) :
    s.Later (s.addRun ⟨i, published, returned⟩) j :=
  .of_transactions rfl (unchanged _ _) ⟨_, rfl, by simpa using hj.symm⟩ rfl

theorem rowsOf_addRows (envelopes : List Envelope) :
    (s.addRows t i envelopes).rowsOf i = s.rowsOf i ++ envelopes.map fun e => ⟨e, t, i⟩ := by
  simp [rowsOf, addRows, List.filter_append, List.filter_map, Function.comp_def]

theorem rowsOf_addRows_of_ne {envelopes : List Envelope} (hj : j ≠ i) :
    (s.addRows t i envelopes).rowsOf j = s.rowsOf j := by
  simp [rowsOf, addRows, List.filter_append, List.filter_map, Function.comp_def, hj.symm]

theorem later_addRows {envelopes : List Envelope} (hj : j ≠ i) :
    s.Later (s.addRows t i envelopes) j :=
  .of_transactions rfl (unchanged _ _) (unchanged _ _) (rowsOf_addRows_of_ne hj)

theorem later_addSent (envelope : Envelope) : s.Later (s.addSent i envelope) j :=
  .of_transactions rfl (unchanged _ _) (unchanged _ _) rfl

theorem later_addAcked : s.Later (s.addAcked i) j :=
  .of_transactions rfl (unchanged _ _) (unchanged _ _) rfl

theorem transactions_set_self (status : Status) :
    (s.setTransaction t i status).transactions t = some (i, status) := Function.update_self ..

theorem transactions_set_of_ne {t' : Transaction} (h : t' ≠ t) (status : Status) :
    (s.setTransaction t i status).transactions t' = s.transactions t' :=
  Function.update_of_ne h ..

/-- A transaction is the one that is set, or as it was. -/
theorem transactions_set_cases {t' : Transaction} {k : Nat} {status status' : Status}
    (h : (s.setTransaction t i status).transactions t' = some (k, status')) :
    (t' = t ∧ k = i ∧ status' = status) ∨ (t' ≠ t ∧ s.transactions t' = some (k, status')) := by
  by_cases he : t' = t
  · subst he
    rw [transactions_set_self, Option.some.injEq, Prod.mk.injEq] at h
    exact Or.inl ⟨rfl, h.1.symm, h.2.symm⟩
  · rw [transactions_set_of_ne he] at h
    exact Or.inr ⟨he, h⟩

/-- A new transaction leaves the old ones as they are. -/
theorem transactions_begin (hn : s.transactions t = none) {t' : Transaction} {k : Nat}
    {status : Status} (ht : s.transactions t' = some (k, status)) :
    (s.setTransaction t i .running).transactions t' = some (k, status) := by
  rw [transactions_set_of_ne, ht]
  rintro rfl
  rw [hn] at ht
  cases ht

/-- The end of a transaction leaves the committed ones as they are. -/
theorem transactions_end {status status' : Status} (ht : s.transactions t = some (i, status))
    (hs : status ≠ .committed) {t' : Transaction} {k : Nat}
    (hc : s.transactions t' = some (k, .committed)) :
    (s.setTransaction t i status').transactions t' = some (k, .committed) := by
  rw [transactions_set_of_ne, hc]
  rintro rfl
  rw [ht, Option.some.injEq, Prod.mk.injEq] at hc
  exact hs hc.2

/-- A new transaction of another delivery. -/
theorem later_begin (hj : j ≠ i) (hn : s.transactions t = none) :
    s.Later (s.setTransaction t i .running) j := by
  constructor
  · intro h t' status ht
    rcases transactions_set_cases ht with ⟨_, hji, _⟩ | ⟨_, ht⟩
    · exact hj hji
    · exact h t' status ht
  · exact fun t' h => h.imp (transactions_begin hn) (transactions_begin hn)
  · exact fun t' k => transactions_begin hn
  · exact List.Subset.refl _
  · exact fun _ h _ => h
  · exact List.Subset.refl _
  · exact fun _ h _ => h
  · rfl

/-- A transaction ends. Others don't notice, and its delivery only if it still held it. -/
theorem later_end {status status' : Status} (ht : s.transactions t = some (i, status))
    (hs : status ≠ .committed) (hj : j = i → status' = .rolledBack ∨ status = .unresolved) :
    s.Later (s.setTransaction t i status') j := by
  constructor
  · intro h t' st ht'
    rcases transactions_set_cases ht' with ⟨_, rfl, _⟩ | ⟨_, ht'⟩
    · exact h _ _ ht
    · exact h t' st ht'
  · intro t' h
    by_cases he : t' = t
    · subst he
      have hji : j = i := by
        rcases h with h | h <;> rw [ht, Option.some.injEq, Prod.mk.injEq] at h <;> exact h.1.symm
      subst hji
      rcases hj rfl with rfl | rfl
      · exact Or.inr (transactions_set_self _)
      · rcases h with h | h <;> rw [ht] at h <;> cases h
    · unfold Holds
      rwa [transactions_set_of_ne he]
  · exact fun t' k => transactions_end ht hs
  · exact List.Subset.refl _
  · exact fun _ h _ => h
  · exact List.Subset.refl _
  · exact fun _ h _ => h
  · rfl

theorem Consistent.begin {job : InboxDelivery Msg} (h : s.Consistent)
    (hd : s.deliveries i = some job) (hi : ∀ t status, s.transactions t ≠ some (i, status))
    (hn : s.transactions t = none) : (s.setTransaction t i .running).Consistent := by
  -- The new transaction is `i`'s only one, it runs, and the old ones stay as they are.
  have cases_new : ∀ t' k status, (s.setTransaction t i .running).transactions t' =
      some (k, status) →
      (t' = t ∧ k = i ∧ status = .running) ∨ (k ≠ i ∧ s.transactions t' = some (k, status)) := by
    intro t' k status ht
    rcases transactions_set_cases ht with hnew | ⟨_, hold⟩
    · exact Or.inl hnew
    · refine Or.inr ⟨?_, hold⟩
      rintro rfl
      exact hi _ _ hold
  have committed : ∀ t', (s.setTransaction t i .running).Committed t' → s.Committed t' := by
    rintro t' ⟨k, ht⟩
    rcases cases_new t' k _ ht with ⟨_, _, h⟩ | ⟨_, ht⟩
    · cases h
    · exact ⟨k, ht⟩
  constructor
  · intro t' k status ht
    rcases cases_new t' k status ht with ⟨_, rfl, _⟩ | ⟨_, ht⟩
    · exact ⟨job, hd⟩
    · exact h.known t' k status ht
  · intro t1 t2 k st1 st2 h1 h2
    rcases cases_new t1 k st1 h1 with ⟨rfl, rfl, _⟩ | ⟨hk, h1⟩
    · rcases cases_new t2 _ st2 h2 with ⟨rfl, _⟩ | ⟨hk, _⟩
      · rfl
      · exact absurd rfl hk
    · rcases cases_new t2 k st2 h2 with ⟨_, rfl, _⟩ | ⟨_, h2⟩
      · exact absurd rfl hk
      · exact h.single t1 t2 k st1 st2 h1 h2
  · intro r hr
    obtain ⟨hkey, status, ht⟩ := h.receipt r hr
    exact ⟨hkey, status, transactions_begin hn ht⟩
  · intro r hr r' hr' hk hc hc'
    exact h.unique r hr r' hr' hk (committed _ hc) (committed _ hc')
  · intro row hrow
    obtain ⟨status, ht⟩ := h.row row hrow
    exact ⟨status, transactions_begin hn ht⟩
  · exact h.run
  · intro t' k status ht hs
    rcases cases_new t' k status ht with ⟨_, _, rfl⟩ | ⟨_, ht⟩
    · rcases hs with hs | hs <;> cases hs
    · exact (h.written t' k status ht hs).same rfl rfl rfl rfl
  · intro k envelope hm
    obtain ⟨⟨t', ht⟩, hjob⟩ := h.sent k envelope hm
    exact ⟨⟨t', transactions_begin hn ht⟩, hjob⟩
  · intro k hm
    obtain ⟨⟨t', ht⟩, hjob⟩ := h.acked k hm
    refine ⟨⟨t', transactions_begin hn ht⟩, ?_⟩
    intro job' hd'
    exact (hjob job' hd').later (fun t k => transactions_begin hn) (List.Subset.refl _)

/-- A transaction that runs or is unresolved ends: committed only when receipts stay unique, and
    only with its handler's publishes when it commits or may commit. -/
theorem Consistent.end {status status' : Status} (h : s.Consistent)
    (ht : s.transactions t = some (i, status)) (hs : status ≠ .committed)
    (hcan : status' = .committed → s.CanCommit t)
    (hw : status' = .committed ∨ status' = .unresolved → s.Written i) :
    (s.setTransaction t i status').Consistent := by
  have owner : ∀ t' k st, s.transactions t' = some (k, st) →
      ∃ st', (s.setTransaction t i status').transactions t' = some (k, st') := by
    intro t' k st ht'
    by_cases he : t' = t
    · subst he
      rw [ht, Option.some.injEq, Prod.mk.injEq] at ht'
      rw [← ht'.1]
      exact ⟨status', transactions_set_self _⟩
    · exact ⟨st, by rw [transactions_set_of_ne he, ht']⟩
  have was : ∀ t' k st, (s.setTransaction t i status').transactions t' = some (k, st) →
      ∃ st', s.transactions t' = some (k, st') := by
    intro t' k st ht'
    rcases transactions_set_cases ht' with ⟨rfl, rfl, _⟩ | ⟨_, ht'⟩
    · exact ⟨status, ht⟩
    · exact ⟨st, ht'⟩
  -- A committed transaction was committed, or is the one that ends.
  have committed : ∀ t', (s.setTransaction t i status').Committed t' →
      s.Committed t' ∨ (t' = t ∧ status' = .committed) := by
    rintro t' ⟨k, ht'⟩
    rcases transactions_set_cases ht' with ⟨he, _, hst⟩ | ⟨_, ht'⟩
    · exact Or.inr ⟨he, hst.symm⟩
    · exact Or.inl ⟨k, ht'⟩
  constructor
  · intro t' k st ht'
    obtain ⟨st', ht'⟩ := was t' k st ht'
    exact h.known t' k st' ht'
  · intro t1 t2 k st1 st2 h1 h2
    obtain ⟨st1', h1⟩ := was t1 k st1 h1
    obtain ⟨st2', h2⟩ := was t2 k st2 h2
    exact h.single t1 t2 k st1' st2' h1 h2
  · intro r hr
    obtain ⟨hkey, st, ht'⟩ := h.receipt r hr
    exact ⟨hkey, owner _ _ _ ht'⟩
  · intro r hr r' hr' hk hc hc'
    rcases committed _ hc with hc | ⟨he, hst⟩
    · rcases committed _ hc' with hc' | ⟨he', hst'⟩
      · exact h.unique r hr r' hr' hk hc hc'
      · exact absurd ⟨r, hr, hk, hc⟩ (hcan hst' r' hr' he')
    · rcases committed _ hc' with hc' | ⟨he', _⟩
      · exact absurd ⟨r', hr', hk.symm, hc'⟩ (hcan hst r hr he)
      · rw [he, he']
  · intro row hrow
    obtain ⟨st, ht'⟩ := h.row row hrow
    exact owner _ _ _ ht'
  · exact h.run
  · intro t' k st ht' hst
    rcases transactions_set_cases ht' with ⟨_, rfl, rfl⟩ | ⟨_, ht'⟩
    · exact (hw hst).same rfl rfl rfl rfl
    · exact (h.written t' k st ht' hst).same rfl rfl rfl rfl
  · intro k envelope hm
    obtain ⟨⟨t', ht'⟩, hjob⟩ := h.sent k envelope hm
    exact ⟨⟨t', transactions_end ht hs ht'⟩, hjob⟩
  · intro k hm
    obtain ⟨⟨t', ht'⟩, hjob⟩ := h.acked k hm
    refine ⟨⟨t', transactions_end ht hs ht'⟩, ?_⟩
    intro job' hd'
    exact (hjob job' hd').later (fun t k => transactions_end ht hs) (List.Subset.refl _)

/-- A receipt of the delivery's message, in its running transaction. -/
theorem Consistent.addReceipt {job : InboxDelivery Msg} (h : s.Consistent)
    (hd : s.deliveries i = some job) (ht : s.transactions t = some (i, .running)) :
    (s.addReceipt ⟨job.key, t, i⟩).Consistent := by
  have hnot : ¬ s.Committed t := by
    rintro ⟨k, hc⟩
    rw [ht] at hc
    cases hc
  constructor
  · exact h.known
  · exact h.single
  · intro r hr
    rcases List.mem_append.mp hr with hr | hr
    · exact h.receipt r hr
    · rw [List.mem_singleton.mp hr]
      exact ⟨⟨job, hd, rfl⟩, _, ht⟩
  · intro r hr r' hr' hk hc hc'
    rcases List.mem_append.mp hr with hr | hr
    · rcases List.mem_append.mp hr' with hr' | hr'
      · exact h.unique r hr r' hr' hk hc hc'
      · rw [List.mem_singleton.mp hr'] at hc'
        exact absurd hc' hnot
    · rw [List.mem_singleton.mp hr] at hc
      exact absurd hc hnot
  · exact h.row
  · intro run hrun
    obtain ⟨r, hr, hk⟩ := h.run run hrun
    exact ⟨r, List.mem_append_left _ hr, hk⟩
  · intro t' k status ht' hs
    have hw := h.written t' k status ht' hs
    have hki : k ≠ i := by
      rintro rfl
      exact Holds.not_ended (Or.inl ht) h ht' hs
    refine ⟨?_, hw.returned, hw.rows⟩
    intro r hr hk
    rcases List.mem_append.mp hr with hr | hr
    · exact hw.ran r hr hk
    · rw [List.mem_singleton.mp hr] at hk
      exact absurd hk.symm hki
  · exact h.sent
  · intro k hm
    obtain ⟨ht, hjob⟩ := h.acked k hm
    refine ⟨ht, ?_⟩
    intro job' hd'
    exact (hjob job' hd').later (fun _ _ => id) (List.subset_append_left _ _)

/-- A handler's run, of a delivery with a receipt and nothing committed. -/
theorem Consistent.addRun {published : List Envelope} {returned : Bool} (h : s.Consistent)
    (ht : s.Holds i t) (hr : s.HasReceipt i) :
    (s.addRun ⟨i, published, returned⟩).Consistent := by
  constructor
  · exact h.known
  · exact h.single
  · exact h.receipt
  · exact h.unique
  · exact h.row
  · intro run hrun
    rcases List.mem_append.mp hrun with hrun | hrun
    · exact h.run run hrun
    · rw [List.mem_singleton.mp hrun]
      exact hr
  · intro t' k status ht' hs
    have hw := h.written t' k status ht' hs
    have old : ∀ run ∈ s.runs ++ [⟨i, published, returned⟩], run.delivery = k → run ∈ s.runs := by
      intro run hrun hk
      rcases List.mem_append.mp hrun with hrun | hrun
      · exact hrun
      · rw [List.mem_singleton.mp hrun] at hk
        subst hk
        exact absurd hs (ht.not_ended h ht')
    constructor
    · intro r hr hk
      obtain ⟨run, hrun, hd⟩ := hw.ran r hr hk
      exact ⟨run, List.mem_append_left _ hrun, hd⟩
    · exact fun run hrun hk => hw.returned run (old run hrun hk) hk
    · exact fun job hd ho run hrun hk => hw.rows job hd ho run (old run hrun hk) hk
  · exact h.sent
  · exact h.acked

/-- Rows in the delivery's running transaction. -/
theorem Consistent.addRows {envelopes : List Envelope} (h : s.Consistent)
    (ht : s.transactions t = some (i, .running)) : (s.addRows t i envelopes).Consistent := by
  constructor
  · exact h.known
  · exact h.single
  · exact h.receipt
  · exact h.unique
  · intro row hrow
    rcases List.mem_append.mp hrow with hrow | hrow
    · exact h.row row hrow
    · obtain ⟨envelope, _, rfl⟩ := List.mem_map.mp hrow
      exact ⟨_, ht⟩
  · exact h.run
  · intro t' k status ht' hs
    have hw := h.written t' k status ht' hs
    refine ⟨hw.ran, hw.returned, ?_⟩
    intro job hd ho run hrun hk
    rw [rowsOf_addRows_of_ne]
    · exact hw.rows job hd ho run hrun hk
    · rintro rfl
      exact Holds.not_ended (Or.inl ht) h ht' hs
  · exact h.sent
  · exact h.acked

/-- A direct send, after the commit and without an outbox. -/
theorem Consistent.addSent {job : InboxDelivery Msg} {envelope : Envelope} (h : s.Consistent)
    (hd : s.deliveries i = some job) (ht : s.transactions t = some (i, .committed))
    (ho : job.outbox = .noOutbox) : (s.addSent i envelope).Consistent := by
  constructor
  · exact h.known
  · exact h.single
  · exact h.receipt
  · exact h.unique
  · exact h.row
  · exact h.run
  · exact fun t' k status ht' hs => (h.written t' k status ht' hs).same rfl rfl rfl rfl
  · intro k sent hm
    rcases List.mem_append.mp hm with hm | hm
    · exact h.sent k sent hm
    · rw [List.mem_singleton, Prod.mk.injEq] at hm
      obtain ⟨rfl, _⟩ := hm
      refine ⟨⟨t, ht⟩, ?_⟩
      intro job' hd'
      change s.deliveries k = some job' at hd'
      rw [hd, Option.some.injEq] at hd'
      rwa [← hd']
  · exact h.acked

/-- An ack, after the commit and with a receipt. -/
theorem Consistent.addAcked {job : InboxDelivery Msg} (h : s.Consistent)
    (hd : s.deliveries i = some job) (ht : s.transactions t = some (i, .committed))
    (hr : s.ReceiptCommitted job.key) : (s.addAcked i).Consistent := by
  constructor
  · exact h.known
  · exact h.single
  · exact h.receipt
  · exact h.unique
  · exact h.row
  · exact h.run
  · exact fun t' k status ht' hs => (h.written t' k status ht' hs).same rfl rfl rfl rfl
  · exact h.sent
  · intro k hm
    rcases List.mem_append.mp hm with hm | hm
    · exact h.acked k hm
    · obtain rfl := List.mem_singleton.mp hm
      refine ⟨⟨t, ht⟩, ?_⟩
      intro job' hd'
      change s.deliveries k = some job' at hd'
      rw [hd, Option.some.injEq] at hd'
      rwa [← hd']

end Changes

/-! ## What each operation keeps -/

section Operations

variable {s s' : Inbox Msg} {i : Nat} {job : InboxDelivery Msg}
  {phases : Nat → Option (InboxDelivery Msg × Phase)} {t : Transaction}

/-- A change by delivery `i` that the other deliveries don't notice. -/
theorem Invariant.change {g : Phase} (h : s.Invariant phases) (hd : s.deliveries i = some job)
    (hs : s'.deliveries = s.deliveries) (hc : s'.Consistent) (hl : ∀ j, j ≠ i → s.Later s' j)
    (hf : s'.Fits i job g) : s'.Invariant (Function.update phases i (some (job, g))) := by
  refine ⟨hc, ?_⟩
  intro j job' g' hj
  rw [hs]
  by_cases hji : j = i
  · subst hji
    rw [Function.update_self, Option.some.injEq, Prod.mk.injEq] at hj
    obtain ⟨rfl, rfl⟩ := hj
    exact ⟨hd, hf⟩
  · rw [Function.update_of_ne hji] at hj
    obtain ⟨hd', hf'⟩ := h.2 j job' g' hj
    exact ⟨hd', hf'.later (hl j hji)⟩

/-- The tables didn't change. -/
theorem Invariant.stay {g : Phase} (h : s.Invariant phases) (hd : s.deliveries i = some job)
    (hf : s.Fits i job g) : s.Invariant (Function.update phases i (some (job, g))) :=
  h.change hd rfl h.1 (fun _ _ => .of_transactions rfl (unchanged _ _) (unchanged _ _) rfl)
    hf

theorem Holds.running (h : s.Holds i t) (hr : s.Running t) :
    s.transactions t = some (i, .running) := by
  obtain ⟨k, hk⟩ := hr
  rcases h with h | h
  · exact h
  · rw [hk] at h
    cases h

theorem begin_keeps {reply : Except StoreError Transaction} (h : s.Invariant phases)
    (hd : s.deliveries i = some job) (hf : s.Fits i job .started)
    (he : s.Answers i s' .begin reply) :
    s'.Invariant (Function.update phases i (some (job, Phase.started.next (.begin : Op Msg) reply))) := by
  cases reply with
  | error error =>
    obtain rfl : s' = s := he
    exact h.stay hd trivial
  | ok t =>
    obtain ⟨hn, rfl⟩ := he
    refine h.change hd rfl (h.1.begin hd hf.1 hn) (fun j hj => later_begin hj hn) ?_
    exact ⟨Or.inl (transactions_set_self _), hf.2⟩

theorem record_keeps {reply : Except StoreError Bool} (h : s.Invariant phases)
    (hd : s.deliveries i = some job) (hf : s.Fits i job (.begun t))
    (he : s.Answers i s' (.record t job.name job.delivery.envelope) reply) :
    s'.Invariant (Function.update phases i (some (job,
      (Phase.begun t).next (.record t job.name job.delivery.envelope : Op Msg) reply))) := by
  have add : s.Running t → s' = s.addReceipt ⟨job.key, t, i⟩ →
      ∀ g, s'.Fits i job g → s'.Invariant (Function.update phases i (some (job, g))) := by
    rintro hr rfl g hg
    exact h.change hd rfl (h.1.addReceipt hd (hf.1.running hr))
      (fun _ hj => later_addReceipt hj) hg
  match reply with
  | .error error =>
    rcases he with rfl | ⟨hr, rfl⟩
    · exact h.stay hd hf.1
    · exact add hr rfl _ hf.1
  | .ok false =>
    obtain ⟨_, hk, rfl⟩ := he
    exact h.stay hd ⟨hf.1, hf.2.1, hf.2.2, hk⟩
  | .ok true =>
    obtain ⟨hr, _, rfl⟩ := he
    apply add hr rfl
    exact ⟨hf.1, hf.2.1, _, List.mem_append_right _ (List.mem_singleton.mpr rfl), rfl⟩

theorem handle_keeps {message : Msg} {context : HandlerContext (Option Transaction)}
    {reply : List Encoded × Ended} (h : s.Invariant phases)
    (hd : s.deliveries i = some job) (hf : s.Fits i job (.recorded t))
    (he : s.Answers i s' (.handle message context) reply) :
    s'.Invariant (Function.update phases i (some (job,
      (Phase.recorded t).next (.handle message context) reply))) := by
  obtain ⟨published, ended⟩ := reply
  obtain rfl : s' = s.addRun ⟨i, published.map context.envelopeOf, ended.isOk⟩ := he
  refine h.change hd rfl (h.1.addRun hf.1 hf.2.2) (fun j hj => later_addRun hj) ?_
  cases ended with
  | ok =>
    refine ⟨hf.1, hf.2.2, ⟨⟨_, List.mem_append_right _ (List.mem_singleton.mpr rfl), rfl⟩, ?_⟩,
      hf.2.1.2⟩
    intro run hrun hi
    rcases List.mem_append.mp hrun with hrun | hrun
    · exact absurd hi (hf.2.1.1 run hrun)
    · rw [List.mem_singleton.mp hrun]
      exact ⟨rfl, rfl⟩
  | failed error => exact hf.1
  | panicked message => exact hf.1

theorem insert_keeps {published : List Envelope} {reply : Except StoreError Unit}
    (h : s.Invariant phases) (hd : s.deliveries i = some job)
    (hf : s.Fits i job (.ran t published)) (he : s.Answers i s' (.insert t published) reply) :
    s'.Invariant (Function.update phases i (some (job,
      (Phase.ran t published).next (.insert t published : Op Msg) reply))) := by
  obtain ⟨hheld, hreceipt, hpub, hrows⟩ := hf
  cases reply with
  | ok _ =>
    obtain ⟨hr, rfl⟩ := he
    refine h.change hd rfl (h.1.addRows (hheld.running hr)) (fun j hj => later_addRows hj) ?_
    refine ⟨hheld, hreceipt, hpub, ?_⟩
    rw [rowsOf_addRows, hrows, List.nil_append, List.map_map]
    exact List.map_id _
  | error error =>
    rcases he with rfl | ⟨hr, written, _, rfl⟩
    · exact h.stay hd hheld
    · exact h.change hd rfl (h.1.addRows (hheld.running hr)) (fun j hj => later_addRows hj) hheld

/-- A commit of a transaction that is ready for it: its handler's publishes are written, and its
    message has a receipt, there or in it. -/
theorem commit_keeps {g : Phase} {held : List Envelope} {reply : Except StoreError Unit}
    (h : s.Invariant phases) (hd : s.deliveries i = some job) (hheld : s.Holds i t)
    (hw : s.Written i) (hkey : s.ReceiptCommitted job.key ∨ s.HasReceipt i)
    (ho : job.outbox = .noOutbox ∨ held = [])
    (hok : ∀ u, reply = .ok u → g = .done t held) (herr : ∀ e, reply = .error e → g = .failed)
    (he : s.Answers i s' (.commit t) reply) :
    s'.Invariant (Function.update phases i (some (job, g))) := by
  have ends : ∀ status, s.Running t → s.Ends s' t i status → s'.Fits i job g →
      s'.Invariant (Function.update phases i (some (job, g))) := by
    rintro status hr ⟨hcan, rfl⟩ hg
    have ht := hheld.running hr
    exact h.change hd rfl (h.1.end ht (by simp) hcan fun _ => hw)
      (fun j hj => later_end ht (by simp) fun hji => absurd hji hj) hg
  cases reply with
  | error error =>
    obtain rfl := herr error rfl
    rcases he with rfl | ⟨hr, status, hends⟩
    · exact h.stay hd trivial
    · exact ends status hr hends trivial
  | ok u =>
    obtain rfl := hok u rfl
    obtain ⟨hr, hends⟩ := he
    have ht := hheld.running hr
    apply ends .committed hr hends
    obtain ⟨hcan, rfl⟩ := hends
    refine ⟨transactions_set_self _, ?_, ho⟩
    rcases hkey with hkey | ⟨r, hm, hi⟩
    · exact hkey.later (later_end (j := i + 1) ht (by simp) (by simp)).committed
        (List.Subset.refl _)
    · obtain ⟨⟨job', hd', hk⟩, status, hrt⟩ := h.1.receipt r hm
      rw [hi, hd, Option.some.injEq] at hd'
      rw [hi] at hrt
      refine ⟨r, hm, by rw [hk, hd'], i, ?_⟩
      rw [h.1.single _ _ i _ _ hrt ht]
      exact transactions_set_self _

theorem rollback_keeps {g : Phase} {reply : Unit} (h : s.Invariant phases)
    (hd : s.deliveries i = some job) (hheld : s.Holds i t)
    (he : s.Answers i s' (.rollback t) reply) (hg : ∀ s : Inbox Msg, s.Fits i job g) :
    s'.Invariant (Function.update phases i (some (job, g))) := by
  rcases he with rfl | ⟨hr, rfl⟩
  · exact h.stay hd (hg _)
  · have ht := hheld.running hr
    exact h.change hd rfl (h.1.end ht (by simp) (by simp) (by simp))
      (fun j hj => later_end ht (by simp) fun _ => Or.inl rfl) (hg _)

theorem publish_keeps {held : List Envelope} {envelope : Envelope}
    {reply : Except TransportError Unit} (h : s.Invariant phases)
    (hd : s.deliveries i = some job) (hf : s.Fits i job (.done t held)) (hm : envelope ∈ held)
    (he : s.Answers i s' (.publish envelope) reply) :
    s'.Invariant (Function.update phases i (some (job, .done t held))) := by
  have ho : job.outbox = .noOutbox := by
    rcases hf.2.2 with ho | rfl
    · exact ho
    · cases hm
  rcases he with rfl | ⟨_, rfl⟩
  · exact h.change hd rfl (h.1.addSent hd hf.1 ho) (fun _ _ => later_addSent _) hf
  · exact h.stay hd hf

theorem ack_keeps {held : List Envelope} {reply : Except TransportError Unit}
    (h : s.Invariant phases) (hd : s.deliveries i = some job) (hf : s.Fits i job (.done t held))
    (he : s.Answers i s' .ack reply) :
    s'.Invariant (Function.update phases i (some (job, .done t held))) := by
  obtain rfl : s' = s.addAcked i := he
  exact h.change hd rfl (h.1.addAcked hd hf.1 hf.2.1) (fun _ _ => later_addAcked) hf

theorem Untouched.written (h : s.Untouched i) (hr : s.NoReceipt i) : s.Written i where
  ran := fun r hm hi => absurd hi (hr r hm)
  returned := fun run hrun hi => absurd hi (h.1 run hrun)
  rows := fun _ _ _ run hrun hi => absurd hi (h.1 run hrun)

/-- What the handler published may stay unwritten without an outbox, or when it is nothing. -/
theorem Published.written {published : List Envelope} (h : s.Published i published)
    (hd : s.deliveries i = some job) (hrows : s.rowsOf i = [])
    (ho : job.outbox = .noOutbox ∨ published = []) : s.Written i where
  ran := fun _ _ _ => h.1
  returned := fun run hrun hi => (h.2 run hrun hi).2
  rows := by
    intro job' hd' hstore run hrun hi
    rw [hd, Option.some.injEq] at hd'
    subst hd'
    rcases ho with ho | rfl
    · rw [ho] at hstore
      cases hstore
    · rw [(h.2 run hrun hi).1, hrows]
      rfl

/-- Every operation the protocol allows keeps the invariant. -/
theorem exec_keeps {g : Phase} {op : Op Msg} {reply : Ret Msg op} (h : s.Invariant phases)
    (hd : s.deliveries i = some job) (hf : s.Fits i job g) (ha : g.Allowed job op)
    (he : s.Answers i s' op reply) :
    s'.Invariant (Function.update phases i (some (job, g.next op reply))) := by
  have settle : s' = s → s.Fits i job (g.next op reply) →
      s'.Invariant (Function.update phases i (some (job, g.next op reply))) := by
    rintro rfl hf'
    exact h.stay hd hf'
  cases g with
  | started =>
    cases op with
    | begin => exact begin_keeps h hd hf he
    | publishError | retry | reject => exact settle he trivial
    | _ => exact ha.elim
  | begun t =>
    cases op with
    | record =>
      obtain ⟨rfl, rfl, rfl⟩ := ha
      exact record_keeps h hd hf he
    | _ => exact ha.elim
  | found t =>
    cases op with
    | commit =>
      obtain rfl := ha
      have hw := hf.2.1.written hf.2.2.1
      refine commit_keeps h hd hf.1 hw (Or.inl hf.2.2.2) (Or.inr (Eq.refl [])) ?_ ?_ he
      · rintro u rfl
        rfl
      · rintro error rfl
        rfl
    | _ => exact ha.elim
  | recorded t =>
    cases op with
    | handle => exact handle_keeps h hd hf he
    | rollback =>
      obtain rfl := ha
      exact rollback_keeps h hd hf.1 he fun _ => trivial
    | _ => exact ha.elim
  | ran t published =>
    cases op with
    | insert =>
      obtain ⟨rfl, rfl, _⟩ := ha
      exact insert_keeps h hd hf he
    | commit =>
      obtain ⟨rfl, ho⟩ := ha
      refine commit_keeps h hd hf.1 (hf.2.2.1.written hd hf.2.2.2 ho) (Or.inr hf.2.1) ho ?_ ?_ he
      · rintro u rfl
        rfl
      · rintro error rfl
        rfl
    | _ => exact ha.elim
  | wrote t published =>
    cases op with
    | commit =>
      obtain rfl := ha
      have hw : s.Written i := by
        refine ⟨fun _ _ _ => hf.2.2.1.1, fun run hrun hi => (hf.2.2.1.2 run hrun hi).2, ?_⟩
        intro _ _ _ run hrun hi
        rw [(hf.2.2.1.2 run hrun hi).1]
        exact hf.2.2.2
      refine commit_keeps h hd hf.1 hw (Or.inr hf.2.1) (Or.inr (Eq.refl [])) ?_ ?_ he
      · rintro u rfl
        rfl
      · rintro error rfl
        rfl
    | _ => exact ha.elim
  | doomed t =>
    cases op with
    | rollback =>
      obtain rfl := ha
      exact rollback_keeps h hd hf he fun _ => trivial
    | _ => exact ha.elim
  | done t held =>
    cases op with
    | publish => exact publish_keeps h hd hf ha he
    | ack => exact ack_keeps h hd hf he
    | publishError | retry | reject => exact settle he hf
    | _ => exact ha.elim
  | failed =>
    cases op with
    | publishError | retry | reject => exact settle he trivial
    | _ => exact ha.elim

/-- What the database does on its own keeps the invariant. -/
theorem Resolves.keeps (he : s.Resolves s' t) (h : s.Invariant phases) :
    s'.Invariant phases := by
  obtain ⟨i, ⟨ht, rfl⟩ | ⟨ht, status, hcan, rfl⟩⟩ := he
  · refine ⟨h.1.end ht (by simp) (by simp) (by simp), ?_⟩
    intro j job g hj
    obtain ⟨hd, hf⟩ := h.2 j job g hj
    exact ⟨hd, hf.later (later_end ht (by simp) fun _ => Or.inl rfl)⟩
  · refine ⟨h.1.end ht (by simp) hcan fun _ => h.1.written _ _ _ ht (Or.inr rfl), ?_⟩
    intro j job g hj
    obtain ⟨hd, hf⟩ := h.2 j job g hj
    exact ⟨hd, hf.later (later_end ht (by simp) fun _ => Or.inr rfl)⟩

/-- A new delivery. -/
theorem launch_keeps (h : s.Invariant phases) (hn : s.deliveries i = none) :
    Invariant { s with deliveries := Function.update s.deliveries i (some job) }
      (Function.update phases i (some (job, .started))) := by
  have known : ∀ k job', s.deliveries k = some job' →
      Function.update s.deliveries i (some job) k = some job' := by
    intro k job' hk
    rw [Function.update_of_ne, hk]
    rintro rfl
    rw [hn] at hk
    cases hk
  -- Nothing is of a delivery that isn't there yet.
  have fresh : ∀ t status, s.transactions t ≠ some (i, status) := by
    intro t status ht
    obtain ⟨job', hk⟩ := h.1.known t i status ht
    rw [hn] at hk
    cases hk
  have noReceipt : s.NoReceipt i := by
    rintro r hr rfl
    obtain ⟨_, status, ht⟩ := h.1.receipt r hr
    exact fresh _ _ ht
  have noRun : ∀ run ∈ s.runs, run.delivery ≠ i := by
    rintro run hrun rfl
    obtain ⟨r, hr, hi⟩ := h.1.run run hrun
    exact noReceipt r hr hi
  have noRows : s.rowsOf i = [] := by
    apply List.filter_eq_nil_iff.mpr
    intro row hrow
    obtain ⟨status, ht⟩ := h.1.row row hrow
    simp only [decide_eq_true_eq]
    rintro rfl
    exact fresh _ _ ht
  have sameJob : ∀ k t status, s.transactions t = some (k, status) → ∀ job',
      Function.update s.deliveries i (some job) k = some job' → s.deliveries k = some job' := by
    intro k t status ht job' hk
    rwa [Function.update_of_ne] at hk
    rintro rfl
    exact fresh _ _ ht
  refine ⟨?_, ?_⟩
  · constructor
    · intro t k status ht
      obtain ⟨job', hk⟩ := h.1.known t k status ht
      exact ⟨job', known k job' hk⟩
    · exact h.1.single
    · intro r hr
      obtain ⟨⟨job', hk, hkey⟩, ht⟩ := h.1.receipt r hr
      exact ⟨⟨job', known _ _ hk, hkey⟩, ht⟩
    · exact h.1.unique
    · exact h.1.row
    · exact h.1.run
    · intro t k status ht hs
      have hw := h.1.written t k status ht hs
      exact ⟨hw.ran, hw.returned, fun job' hk => hw.rows job' (sameJob k t status ht job' hk)⟩
    · intro k envelope hm
      obtain ⟨⟨t, ht⟩, hjob⟩ := h.1.sent k envelope hm
      exact ⟨⟨t, ht⟩, fun job' hk => hjob job' (sameJob k t _ ht job' hk)⟩
    · intro k hm
      obtain ⟨⟨t, ht⟩, hjob⟩ := h.1.acked k hm
      exact ⟨⟨t, ht⟩, fun job' hk => hjob job' (sameJob k t _ ht job' hk)⟩
  · intro j job' g hj
    by_cases hji : j = i
    · subst hji
      rw [Function.update_self, Option.some.injEq, Prod.mk.injEq] at hj
      obtain ⟨rfl, rfl⟩ := hj
      exact ⟨Function.update_self .., fresh, ⟨noRun, noRows⟩, noReceipt⟩
    · rw [Function.update_of_ne hji] at hj
      obtain ⟨hk, hf⟩ := h.2 j job' g hj
      exact ⟨known j job' hk, hf.later
        (.of_transactions rfl (unchanged _ _) (unchanged _ _) rfl)⟩

/-- A delivery inserts in, commits or rolls back what it holds. -/
theorem holds_of_insert {g : Phase} {envelopes : List Envelope} (hf : s.Fits i job g)
    (ha : g.Allowed job (.insert t envelopes : Op Msg)) : s.Holds i t := by
  cases g with
  | ran t' published =>
    obtain ⟨rfl, _⟩ := ha
    exact hf.1
  | _ => exact ha.elim

theorem holds_of_commit {g : Phase} (hf : s.Fits i job g)
    (ha : g.Allowed job (.commit t : Op Msg)) : s.Holds i t := by
  cases g with
  | found t' =>
    obtain rfl : t = t' := ha
    exact hf.1
  | ran t' published =>
    obtain ⟨rfl, _⟩ := ha
    exact hf.1
  | wrote t' published =>
    obtain rfl : t = t' := ha
    exact hf.1
  | _ => exact ha.elim

theorem holds_of_rollback {g : Phase} (hf : s.Fits i job g)
    (ha : g.Allowed job (.rollback t : Op Msg)) : s.Holds i t := by
  cases g with
  | recorded t' =>
    obtain rfl : t = t' := ha
    exact hf.1
  | doomed t' =>
    obtain rfl : t = t' := ha
    exact hf
  | _ => exact ha.elim

end Operations

/-! ## Every run -/

theorem Empty.invariant {s : Inbox Msg} (h : s.Empty) : s.Invariant fun _ => none := by
  obtain ⟨hd, ht, hr, hrows, hruns, hsent, hacked⟩ := h
  refine ⟨?_, by simp⟩
  constructor <;> simp [ht, hr, hrows, hruns, hsent, hacked]

theorem keeps {C} :
    (inbox Msg).Keeps C inboxProtocol (fun _ => .started) Invariant where
  body := process_obeys
  launch := by
    rintro s s' phases i job h _ ⟨hn, rfl⟩
    exact launch_keeps h hn
  exec := by
    intro st s' phases i job rest g op reply h _ hγ ha he _
    obtain ⟨hd, hf⟩ := h.2 i job g hγ
    exact ⟨trivial, exec_keeps h hd hf ha he⟩
  leave := by
    rintro s s' phases i job g h _ rfl
    refine ⟨h.1, ?_⟩
    intro j job' g' hj
    by_cases hji : j = i
    · subst hji
      rw [Function.update_self] at hj
      cases hj
    · rw [Function.update_of_ne hji] at hj
      exact h.2 j job' g' hj
  env := by
    intro st s' phases t h he _
    exact he.keeps h

theorem consistent {C} {st : System.State Nat (Op Msg) (Ret Msg) (InboxDelivery Msg) (Inbox Msg)}
    (h : (inbox Msg).Reach Empty C st) : st.shared.Consistent := by
  obtain ⟨_, _, hI⟩ := h.tracked keeps fun _ h0 => h0.invariant
  exact hI.1

/-- A delivery at an operation: what it knows, and that it may perform it. -/
theorem asks {C} {st : System.State Nat (Op Msg) (Ret Msg) (InboxDelivery Msg) (Inbox Msg)}
    (h : (inbox Msg).Reach Empty C st) {i : Nat} {job : InboxDelivery Msg} {op : Op Msg}
    {next : Ret Msg op → Handling Msg Unit} (hp : st.procs i = some ⟨job, .call op next⟩) :
    ∃ g, st.shared.deliveries i = some job ∧ st.shared.Fits i job g ∧ g.Allowed job op := by
  obtain ⟨phases, ht, hI⟩ := h.tracked keeps fun _ h0 => h0.invariant
  have hti := ht i
  rw [hp] at hti
  obtain ⟨g, hγ, hobeys⟩ := System.tracked_some hti
  obtain ⟨hd, hf⟩ := hI.2 i job g hγ
  exact ⟨g, hd, hf, hobeys.1⟩

end Inbox

end SisaMessaging.Runtime
