/-
  The inbox over PostgreSQL refines the inbox's contract.

  `Represents` ties the database to the contract's tables, with the statements that each delivery's
  operation has done so far: rows of an insert that goes on are in the database first, and conflicting
  receipts are of transactions of which all but one were rolled back. Each statement keeps it
  (`Advances`), so every run over PostgreSQL is a run of the contract.
-/
import SisaMessaging.Lib.Forall2
import SisaMessaging.Postgres.Sessions
import SisaMessaging.Runtime.Conversation

namespace SisaMessaging.Postgres

open SisaMessaging.Core SisaMessaging.Lib SisaMessaging.Runtime
open SisaMessaging.Lib.Prog (After Only Starts Within)
open SisaMessaging.Lib.System (Any Follows Refines)

variable {Msg : Type}

/-! ## The relation -/

def wrote : Event (Sql Msg) (SqlRet Msg) → Option Envelope
  | ⟨.insertRow _ envelope, .ok ()⟩ => some envelope
  | _ => none

/-- The rows that an operation has inserted. -/
def inserted (evs : List (Event (Sql Msg) (SqlRet Msg))) : List Envelope := evs.filterMap wrote

def SqlInbox.rowsIn (s : SqlInbox Msg) (t : Transaction) : List Envelope :=
  (s.rows.filter (·.1 = t)).map (·.2)

/-- A row of `inbox_receipts` is the contract's receipt. -/
def StandsFor (row : Transaction × ReceiptRow) (r : Receipt) : Prop :=
  row.1 = r.transaction ∧ row.2.endpoint = r.key.endpoint ∧ row.2.messageId = r.key.id.uuid ∧
    row.2.messageTime = r.key.time.toText

/-- What the database says of the contract's tables. -/
structure Represents (s' : SqlInbox Msg) (s : Inbox Msg)
    (done : Nat → List (Event (Sql Msg) (SqlRet Msg))) : Prop where
  deliveries : s.deliveries = s'.deliveries
  transactions : ∀ t, s.transactions t = (s'.sessions t).map fun x => (x.1, x.2.status)
  receipts : List.Forall₂ StandsFor s'.receipts s.receipts
  /-- Of transactions with receipts of one key, all but one were rolled back. -/
  exclusive : ∀ r ∈ s.receipts, ∀ r' ∈ s.receipts, r.key = r'.key →
    r.transaction = r'.transaction ∨ s'.RolledBack r.transaction ∨ s'.RolledBack r'.transaction
  oneTime : ∀ i j job other, s.deliveries i = some job → s.deliveries j = some other →
    job.delivery.envelope.id = other.delivery.envelope.id →
      job.delivery.envelope.time = other.delivery.envelope.time
  /-- The rows of a transaction are its delivery's, and the ones that it is inserting. -/
  rows : ∀ t i stage, s'.sessions t = some (i, stage) → stage ≠ .rolledBack →
    s'.rowsIn t = (s.rowsOf i).map (·.envelope) ++ inserted (done i)
  fresh : ∀ t, s'.sessions t = none → s'.rowsIn t = []
  /-- A transaction that was checked isn't aborted before its commit. -/
  checked : ∀ i t, ⟨.check t, .ok ()⟩ ∈ done i →
    ∃ stage, s'.sessions t = some (i, stage) ∧ stage ≠ .aborted
  runs : s.runs = s'.runs
  sent : s.sent = s'.sent
  acked : s.acked = s'.acked

section Changes

variable {s' s'' : SqlInbox Msg} {s : Inbox Msg} {done : Nat → List (Event (Sql Msg) (SqlRet Msg))}
  {i : Nat} {t : Transaction} {stage : Stage} {evs : List (Event (Sql Msg) (SqlRet Msg))}

@[simp] theorem rowsIn_addRow (envelope : Envelope) (u : Transaction) :
    (s'.addRow t envelope).rowsIn u = s'.rowsIn u ++ if u = t then [envelope] else [] := by
  unfold SqlInbox.rowsIn SqlInbox.addRow
  rw [List.filter_append, List.map_append]
  congr 1
  by_cases h : u = t
  · simp [h]
  · simp [h, Ne.symm h]

theorem sessions_set_cases {u : Transaction} {k : Nat} {stage' : Stage}
    (h : (s'.setSession t i stage).sessions u = some (k, stage')) :
    (u = t ∧ k = i ∧ stage' = stage) ∨ (u ≠ t ∧ s'.sessions u = some (k, stage')) := by
  rcases System.update_eq_some.mp h with ⟨hu, he⟩ | h
  · cases he
    exact Or.inl ⟨hu, rfl, rfl⟩
  · exact Or.inr h

namespace Represents

/-- The contract's side of a transaction. -/
theorem transaction (h : Represents s' s done) (ht : s'.sessions t = some (i, stage)) :
    s.transactions t = some (i, stage.status) := by
  rw [h.transactions, ht]
  rfl

theorem session (h : Represents s' s done) {status : Runtime.Status}
    (ht : s.transactions t = some (i, status)) :
    ∃ stage, s'.sessions t = some (i, stage) ∧ stage.status = status := by
  rw [h.transactions, Option.map_eq_some_iff] at ht
  obtain ⟨⟨k, stage⟩, hs, he⟩ := ht
  cases he
  exact ⟨stage, hs, rfl⟩

theorem holds_owner (h : Represents s' s done) (hh : s.Holds i t) {k : Nat}
    (ht : s'.sessions t = some (k, stage)) : k = i := by
  have hk := h.transaction ht
  rcases hh with hh | hh
  · rw [hh, Option.some.injEq, Prod.mk.injEq] at hk
    exact hk.1.symm
  · rw [hh, Option.some.injEq, Prod.mk.injEq] at hk
    exact hk.1.symm

/-- An operation goes on to another statement. -/
theorem progress (h : Represents s' s done)
    (hrows : ∀ t stage, s'.sessions t = some (i, stage) → stage ≠ .rolledBack →
      inserted evs = inserted (done i))
    (hchecked : ∀ t, ⟨.check t, .ok ()⟩ ∈ evs →
      ∃ stage, s'.sessions t = some (i, stage) ∧ stage ≠ .aborted) :
    Represents s' s (Function.update done i evs) := by
  refine { h with rows := ?_, checked := ?_ }
  · intro t k stage ht hstage
    by_cases hk : k = i
    · subst hk
      rw [Function.update_self, hrows t stage ht hstage]
      exact h.rows t k stage ht hstage
    · rw [Function.update_of_ne hk]
      exact h.rows t k stage ht hstage
  · intro k t hm
    by_cases hk : k = i
    · subst hk
      rw [Function.update_self] at hm
      exact hchecked t hm
    · rw [Function.update_of_ne hk] at hm
      exact h.checked k t hm

/-- A transaction that wasn't rolled back is set, with the rows of its delivery. -/
theorem set (h : Represents s' s done) (stage : Stage) (hb : ¬ s'.RolledBack t)
    (hrows : s'.rowsIn t = (s.rowsOf i).map (·.envelope) ++ inserted (done i))
    (hchecked : ∀ k, ⟨.check t, .ok ()⟩ ∈ done k → k = i ∧ stage ≠ .aborted) :
    Represents (s'.setSession t i stage) (s.setTransaction t i stage.status) done := by
  have other {u : Transaction} (hu : u ≠ t) : (s'.setSession t i stage).sessions u = s'.sessions u :=
    Function.update_of_ne hu _ _
  have kept {u : Transaction} (hu : s'.RolledBack u) : (s'.setSession t i stage).RolledBack u := by
    obtain ⟨k, hk⟩ := hu
    have hne : u ≠ t := by
      rintro rfl
      exact hb ⟨k, hk⟩
    exact ⟨k, (other hne).trans hk⟩
  refine { h with transactions := ?_, exclusive := ?_, rows := ?_, fresh := ?_, checked := ?_ }
  · intro u
    by_cases hu : u = t
    · subst hu
      rw [Inbox.transactions_set_self]
      simp [SqlInbox.setSession]
    · rw [Inbox.transactions_set_of_ne hu, other hu, h.transactions]
  · intro r hr r' hr' hkey
    rcases h.exclusive r hr r' hr' hkey with he | hroll | hroll
    · exact Or.inl he
    · exact Or.inr (Or.inl (kept hroll))
    · exact Or.inr (Or.inr (kept hroll))
  · intro u k stage' hu hstage
    rcases sessions_set_cases hu with ⟨rfl, rfl, rfl⟩ | ⟨_, hu⟩
    · exact hrows
    · exact h.rows u k stage' hu hstage
  · intro u hu
    by_cases hut : u = t
    · subst hut
      cases (Function.update_self (f := s'.sessions) ..).symm.trans hu
    · exact h.fresh u ((other hut).symm.trans hu)
  · intro k u hm
    by_cases hut : u = t
    · subst hut
      obtain ⟨rfl, hstage⟩ := hchecked k hm
      exact ⟨stage, Function.update_self .., hstage⟩
    · obtain ⟨stage', hu, hstage⟩ := h.checked k u hm
      exact ⟨stage', (other hut).trans hu, hstage⟩

/-- A transaction begins. -/
theorem begin (h : Represents s' s done) (hn : s'.sessions t = none) (hrows : s.rowsOf i = [])
    (hdone : done i = []) :
    Represents (s'.setSession t i .active) (s.setTransaction t i .running) done := by
  refine h.set .active ?_ ?_ ?_
  · rintro ⟨k, hk⟩
    cases hn.symm.trans hk
  · rw [h.fresh t hn, hrows, hdone]
    rfl
  · intro k hm
    obtain ⟨stage, ht, _⟩ := h.checked k t hm
    cases hn.symm.trans ht

/-- A transaction goes from one stage to another, but not from a check to aborted. -/
theorem moves {before : Stage} (h : Represents s' s done) (stage : Stage)
    (ht : s'.sessions t = some (i, before)) (hb : before ≠ .rolledBack)
    (hchecked : stage = .aborted → ⟨.check t, .ok ()⟩ ∉ done i) :
    Represents (s'.setSession t i stage) (s.setTransaction t i stage.status) done := by
  refine h.set stage ?_ (h.rows t i before ht hb) ?_
  · rintro ⟨k, hk⟩
    cases ht.symm.trans hk
    exact hb rfl
  · intro k hm
    obtain ⟨stage', ht', _⟩ := h.checked k t hm
    cases ht.symm.trans ht'
    exact ⟨rfl, fun he => hchecked he hm⟩

/-- A failed statement is nothing to the contract. -/
theorem abort (h : Represents s' s done) (ht : s'.sessions t = some (i, .active))
    (hchecked : ⟨.check t, .ok ()⟩ ∉ done i) :
    Represents (s'.setSession t i .aborted) s done := by
  have hmoved := h.moves .aborted ht nofun fun _ => hchecked
  have hsame : s.setTransaction t i Stage.aborted.status = s := by
    unfold Inbox.setTransaction
    rw [show some (i, Stage.aborted.status) = s.transactions t from (h.transaction ht).symm,
      Function.update_eq_self]
  rwa [hsame] at hmoved

/-- Receipts stay unique when a transaction that isn't over commits. -/
theorem canCommit (h : Represents s' s done) (ht : s'.sessions t = some (i, stage))
    (hc : stage ≠ .committed) (hb : stage ≠ .rolledBack) : s.CanCommit t := by
  rintro r hr rfl ⟨r', hr', hkey, k, hcommitted⟩
  obtain ⟨stage', ht', hstage⟩ := h.session hcommitted
  have hcommitted : stage' = .committed := by
    cases stage' <;> first | rfl | cases hstage
  subst hcommitted
  rcases h.exclusive r hr r' hr' hkey.symm with he | ⟨_, hroll⟩ | ⟨_, hroll⟩
  · rw [← he, ht] at ht'
    cases ht'
    exact hc rfl
  · rw [ht] at hroll
    cases hroll
    exact hb rfl
  · rw [ht'] at hroll
    cases hroll

/-- A receipt that nothing there conflicts with. -/
theorem addReceipt {row : ReceiptRow} {key : ReceiptKey} {times : PgTimes} (h : Represents s' s done)
    (hrow : StandsFor (t, row) ⟨key, t, i⟩) (hcast : (times.cast row.messageTime).isSome)
    (hfree : s'.Free times row) :
    Represents (s'.addReceipt t row) (s.addReceipt ⟨key, t, i⟩) done := by
  refine { h with receipts := List.rel_append h.receipts (.cons hrow .nil), exclusive := ?_ }
  · have rolled : ∀ r ∈ s.receipts, r.key = key → s'.RolledBack r.transaction := by
      intro r hr hkey
      obtain ⟨other, hother, hstands⟩ := forall₂_mem_right h.receipts hr
      obtain ⟨time, htime⟩ := Option.isSome_iff_exists.mp hcast
      obtain ⟨_, hend, hid, htext⟩ := hrow
      rw [← hstands.1]
      refine hfree other hother ⟨time, htime, ?_, Or.inr ⟨?_, ?_⟩⟩
      · rw [hstands.2.2.2, hkey, ← htext, htime]
      · rw [hstands.2.1, hkey, ← hend]
      · rw [hstands.2.2.1, hkey, ← hid]
    intro r hr r' hr' hkey
    rcases List.mem_append.mp hr with hr | hr
    · rcases List.mem_append.mp hr' with hr' | hr'
      · exact h.exclusive r hr r' hr' hkey
      · obtain rfl := List.mem_singleton.mp hr'
        exact Or.inr (Or.inl (rolled r hr hkey))
    · obtain rfl := List.mem_singleton.mp hr
      rcases List.mem_append.mp hr' with hr' | hr'
      · exact Or.inr (Or.inr (rolled r' hr' hkey.symm))
      · obtain rfl := List.mem_singleton.mp hr'
        exact Or.inl rfl

/-- A row of an insert that goes on. -/
theorem addRow (h : Represents s' s done) (hs : s.Consistent) (ht : s'.sessions t = some (i, stage))
    (envelope : Envelope) (reply : SqlRet Msg (.insertRow t envelope)) (hreply : reply = .ok ()) :
    Represents (s'.addRow t envelope) s
      (Function.update done i (done i ++ [⟨.insertRow t envelope, reply⟩])) := by
  refine { h with rows := ?_, fresh := ?_, checked := ?_ }
  · subst hreply
    intro u k stage' hu hstage
    rw [rowsIn_addRow, h.rows u k stage' hu hstage]
    by_cases hk : k = i
    · subst hk
      have hut : u = t := hs.single u t k _ _ (h.transaction hu) (h.transaction ht)
      rw [if_pos hut, Function.update_self, inserted, inserted, List.filterMap_append,
        List.append_assoc]
      rfl
    · have hut : u ≠ t := by
        rintro rfl
        cases ht.symm.trans hu
        exact hk rfl
      rw [if_neg hut, List.append_nil, Function.update_of_ne hk]
  · intro u hu
    have hut : u ≠ t := by
      rintro rfl
      cases ht.symm.trans hu
    rw [rowsIn_addRow, if_neg hut, List.append_nil, h.fresh u hu]
  · intro k u hm
    by_cases hk : k = i
    · subst hk
      rw [Function.update_self] at hm
      rcases List.mem_append.mp hm with hm | hm
      · exact h.checked k u hm
      · cases List.mem_singleton.mp hm
    · rw [Function.update_of_ne hk] at hm
      exact h.checked k u hm

/-- An insert is over: its rows are the delivery's. -/
theorem addRows (h : Represents s' s done) (t : Transaction) :
    Represents s' (s.addRows t i (inserted (done i))) (Function.update done i []) := by
  refine { h with rows := ?_, checked := ?_ }
  · intro u k stage' hu hstage
    rw [h.rows u k stage' hu hstage]
    by_cases hk : k = i
    · subst hk
      rw [Inbox.rowsOf_addRows, Function.update_self, List.map_append, List.map_map]
      simp [inserted, Function.comp_def]
    · rw [Inbox.rowsOf_addRows_of_ne hk, Function.update_of_ne hk]
  · intro k u hm
    by_cases hk : k = i
    · subst hk
      rw [Function.update_self] at hm
      cases hm
    · rw [Function.update_of_ne hk] at hm
      exact h.checked k u hm

/-- An operation without rows of its own is over. -/
theorem finish (h : Represents s' s done) (hins : inserted (done i) = []) :
    Represents s' s (Function.update done i []) :=
  h.progress (fun _ _ _ _ => hins.symm) nofun

/-- An insert is over in the middle: its rows stay, unless its transaction was rolled back. -/
theorem insert_over (h : Represents s' s done) (hs : s.Consistent) (hheld : s.Holds i t)
    {envelopes : List Envelope} (hsofar : inserted (done i) <+: envelopes) (error : StoreError) :
    ∃ s₁, s.Answers i s₁ (.insert t envelopes) (.error error) ∧
      Represents s' s₁ (Function.update done i []) := by
  rcases hheld with ht | ht
  · exact ⟨_, Or.inr ⟨⟨i, ht⟩, _, hsofar, rfl⟩, h.addRows t⟩
  · refine ⟨s, Or.inl rfl, h.progress (fun u stage hu hstage => ?_) nofun⟩
    obtain rfl := hs.single u t i _ _ (h.transaction hu) ht
    have hstatus := (h.transaction hu).symm.trans ht
    cases stage with
    | rolledBack => exact absurd rfl hstage
    | _ => cases hstatus

end Represents

/-! ## What each statement keeps -/

/-- A statement of an operation was answered: the operation goes on, or it is over. -/
def Advances (s'' : SqlInbox Msg) (s : Inbox Msg) (done : Nat → List (Event (Sql Msg) (SqlRet Msg)))
    (i : Nat) (op : Op Msg) (evs : List (Event (Sql Msg) (SqlRet Msg))) :
    Executing Msg (Ret Msg op) → Prop
  | .ret reply => ∃ s₁, s.Answers i s₁ op reply ∧ Represents s'' s₁ (Function.update done i [])
  | .call _ _ => Represents s'' s (Function.update done i evs)

variable {times : PgTimes} {uuids : UuidFormat} {store : PostgresInbox} {job : InboxDelivery Msg}
  {statement : Sql Msg} {reply : SqlRet Msg statement}

theorem begin_advances {rest : SqlRet Msg statement → Executing Msg (Except StoreError Transaction)}
    (h : Represents s' s done) (hf : s.Fits i job .started)
    (ha : After PostgresInbox.begin (done i) (.call statement rest))
    (he : s'.Answers times i s'' statement reply) :
    Advances s'' s done i .begin (done i ++ [⟨statement, reply⟩]) (rest reply) := by
  generalize hd : done i = evs at ha
  have hbegin : (PostgresInbox.begin : Executing Msg _) =
    .call .begin fun r => .ret (r.mapError (.database "beginning an inbox transaction")) := rfl
  rw [hbegin] at ha
  cases ha with
  | cons ha => cases ha
  | nil =>
    have hover : inserted (done i) = [] := by rw [hd]; rfl
    cases reply with
    | error error =>
      obtain rfl : s'' = s' := he
      exact ⟨s, rfl, h.finish hover⟩
    | ok t =>
      obtain ⟨hn, rfl⟩ := he
      have hnone : s.transactions t = none := by rw [h.transactions, hn]; rfl
      exact ⟨_, ⟨hnone, rfl⟩, (h.begin hn hf.2.1.2 hd).finish hover⟩

section Record

variable {id : MessageId}

/-- The receipt of a delivery's message. -/
theorem standsFor_receipt : StandsFor (t, store.receipt uuids id job.name job.delivery.envelope)
    ⟨job.key, t, i⟩ := ⟨rfl, rfl, rfl, rfl⟩

/-- Nothing that conflicts stands: there is no committed receipt of the message. -/
theorem not_receiptCommitted (h : Represents s' s done)
    (hcast : (times.cast job.delivery.envelope.time.toText).isSome)
    (hfree : s'.Free times (store.receipt uuids id job.name job.delivery.envelope)) :
    ¬ s.ReceiptCommitted job.key := by
  rintro ⟨r, hr, hkey, k, hcommitted⟩
  obtain ⟨other, hother, htransaction, hend, hid, htext⟩ := forall₂_mem_right h.receipts hr
  obtain ⟨time, htime⟩ := Option.isSome_iff_exists.mp hcast
  rw [hkey] at hend hid htext
  obtain ⟨k', hrolled⟩ := hfree other hother
    ⟨time, htime, by rw [htext]; exact htime, Or.inr ⟨hend.symm, hid.symm⟩⟩
  rw [htransaction] at hrolled
  cases (h.transaction hrolled).symm.trans hcommitted

/-- A row that conflicts stands: there is a committed receipt of the message. -/
theorem receiptCommitted (h : Represents s' s done) (hs : s.Consistent)
    (hd : s.deliveries i = some job) (hf : s.Fits i job (.begun t)) (ht : s'.Active t)
    (hids : ∀ r ∈ s'.receipts, r.2.id ≠ id.uuid)
    (htaken : s'.Taken times t (store.receipt uuids id job.name job.delivery.envelope)) :
    s.ReceiptCommitted job.key := by
  obtain ⟨other, hother, ⟨_, _, _, hsame⟩, hstands⟩ := htaken
  obtain ⟨r, hr, htransaction, hend, hid, htext⟩ := forall₂_mem_left h.receipts hother
  obtain ⟨⟨job', hd', hkey⟩, status, hrt⟩ := hs.receipt r hr
  rcases hsame with hsame | ⟨hsameEnd, hsameId⟩
  · exact absurd hsame.symm (hids other hother)
  · rcases hstands with hown | ⟨k, hcommitted⟩
    · -- The delivery has no receipt yet.
      obtain ⟨k, hk⟩ := ht
      rw [← htransaction, hown, h.transaction hk, h.holds_owner hf.1 hk] at hrt
      cases hrt
      exact absurd rfl (hf.2.2 r hr)
    · have hname : r.key.endpoint = job.name := hend.symm.trans hsameEnd.symm
      have huuid : r.key.id.uuid = job.delivery.envelope.id.uuid := hid.symm.trans hsameId.symm
      have hmessage : r.key.id = job.delivery.envelope.id := by
        cases hrid : r.key.id
        cases hjid : job.delivery.envelope.id
        rw [hrid, hjid] at huuid
        exact congrArg MessageId.mk huuid
      have htime : r.key.time = job.delivery.envelope.time := by
        rw [hkey] at hmessage ⊢
        exact h.oneTime _ _ _ _ hd' hd hmessage
      refine ⟨r, hr, ?_, k, ?_⟩
      · cases hrk : r.key
        rw [hrk] at hname hmessage htime
        cases hname
        cases hmessage
        cases htime
        rfl
      · rw [← htransaction]
        exact h.transaction hcommitted

theorem record_advances {rest : SqlRet Msg statement → Executing Msg (Except StoreError Bool)}
    (h : Represents s' s done) (hs : s.Consistent) (hd : s.deliveries i = some job)
    (hf : s.Fits i job (.begun t))
    (ha : After (store.record uuids t job.name job.delivery.envelope) (done i) (.call statement rest))
    (hids : ∀ u row, statement = .insertReceipt u row → ∀ r ∈ s'.receipts, r.2.id ≠ row.id)
    (he : s'.Answers times i s'' statement reply) :
    Advances s'' s done i (.record t job.name job.delivery.envelope)
      (done i ++ [⟨statement, reply⟩]) (rest reply) := by
  generalize hevs : done i = evs at ha
  have hrecord : (store.record uuids t job.name job.delivery.envelope : Executing Msg _) =
    .call .newId fun id =>
      .call (.insertReceipt t (store.receipt uuids id job.name job.delivery.envelope)) fun r =>
        match r with
        | .error error => .ret (.error (.database "inserting an inbox receipt" error))
        | .ok affected => .ret (.ok (affected == 1)) := by
    unfold PostgresInbox.record
    refine congrArg _ (funext fun id => congrArg _ (funext fun r => ?_))
    cases r <;> rfl
  rw [hrecord] at ha
  cases ha with
  | nil =>
    obtain rfl : s'' = s' := he
    exact h.progress (fun _ _ _ _ => by rw [hevs]; rfl) (by simp)
  | @cons _ _ id _ _ ha =>
    cases ha with
    | @cons _ _ affected _ _ ha => cases affected <;> cases ha
    | nil =>
      have hover : inserted (done i) = [] := by rw [hevs]; rfl
      have hcheck : ⟨.check t, .ok ()⟩ ∉ done i := by simp [hevs]
      cases reply with
      | error error =>
        rcases he with rfl | ⟨k, hk, rfl⟩ | ⟨hcast, hfree, k, hk, rfl⟩
        · exact ⟨s, Or.inl rfl, h.finish hover⟩
        · obtain rfl := h.holds_owner hf.1 hk
          exact ⟨s, Or.inl rfl, (h.abort hk hcheck).finish hover⟩
        · obtain rfl := h.holds_owner hf.1 hk
          have hadded := h.addReceipt (t := t) (i := k) standsFor_receipt hcast hfree
          exact ⟨_, Or.inr ⟨⟨_, h.transaction hk⟩, rfl⟩, (hadded.abort hk hcheck).finish hover⟩
      | ok affected =>
        obtain ⟨hactive, hcast, ⟨rfl, hfree, rfl⟩ | ⟨rfl, htaken, rfl⟩⟩ := he
        · obtain ⟨k, hk⟩ := hactive
          have hadded := h.addReceipt (t := t) (i := i) standsFor_receipt hcast hfree
          exact ⟨_, ⟨⟨_, h.transaction hk⟩, not_receiptCommitted h hcast hfree, rfl⟩, hadded.finish hover⟩
        · have hcommitted := receiptCommitted h hs hd hf hactive (hids _ _ rfl) htaken
          obtain ⟨k, hk⟩ := hactive
          exact ⟨s, ⟨⟨_, h.transaction hk⟩, hcommitted, rfl⟩, h.finish hover⟩

end Record

theorem insertAll_cons (envelope : Envelope) (envelopes : List Envelope) :
    (insertAll t (envelope :: envelopes) : Executing Msg _) =
      .call (.insertRow t envelope) fun r => match r with
        | .error error => .ret (.error (.database "inserting an outbox row" error))
        | .ok () => insertAll t envelopes := by
  refine congrArg _ (funext fun r => ?_)
  cases r <;> rfl

theorem insertAll_only {envelopes : List Envelope} :
    Only (fun statement => ∃ envelope, statement = .insertRow t envelope)
      (insertAll t envelopes : Executing Msg _) := by
  induction envelopes with
  | nil => trivial
  | cons envelope envelopes ih =>
    rw [insertAll_cons]
    refine ⟨⟨envelope, rfl⟩, ?_⟩
    intro r
    cases r with
    | error error => trivial
    | ok _ => exact ih

/-- Where an insert is: it is over, or the rest of its rows is left. -/
theorem after_insertAll {envelopes : List Envelope} {p : Executing Msg (Except StoreError Unit)}
    (ha : After (insertAll t envelopes) evs p) : (∃ r, p = .ret r) ∨
      ∃ left, envelopes = inserted evs ++ left ∧ p = insertAll t left := by
  induction envelopes generalizing evs with
  | nil =>
    cases ha
    exact Or.inl ⟨.ok (), rfl⟩
  | cons envelope envelopes ih =>
    rw [insertAll_cons] at ha
    cases ha with
    | nil => exact Or.inr ⟨envelope :: envelopes, rfl, (insertAll_cons _ _).symm⟩
    | @cons _ _ r _ _ ha =>
      cases r with
      | error error =>
        cases ha
        exact Or.inl ⟨_, rfl⟩
      | ok _ =>
        rcases ih ha with hret | ⟨left, rfl, hp⟩
        · exact Or.inl hret
        · exact Or.inr ⟨left, rfl, hp⟩

theorem insert_advances {envelopes : List Envelope}
    {rest : SqlRet Msg statement → Executing Msg (Except StoreError Unit)}
    (h : Represents s' s done) (hs : s.Consistent) (hheld : s.Holds i t)
    (ha : After (insertAll t envelopes) (done i) (.call statement rest))
    (he : s'.Answers times i s'' statement reply) :
    Advances s'' s done i (.insert t envelopes) (done i ++ [⟨statement, reply⟩]) (rest reply) := by
  have hcheck : ⟨.check t, .ok ()⟩ ∉ done i := fun hm => by
    obtain ⟨envelope, he⟩ := insertAll_only.after ha _ hm
    cases he
  rcases after_insertAll ha with ⟨_, hret⟩ | ⟨left, hleft, hp⟩
  · cases hret
  · cases left with
    | nil => cases hp
    | cons envelope left =>
      rw [insertAll_cons] at hp
      cases hp
      have hwrote : inserted (done i ++ [⟨.insertRow t envelope, .ok ()⟩]) =
          inserted (done i) ++ [envelope] := List.filterMap_append ..
      cases reply with
      | error error =>
        have hsofar : inserted (done i) <+: envelopes := ⟨_, hleft.symm⟩
        rcases he with rfl | ⟨k, hk, rfl⟩ | ⟨k, hk, rfl⟩
        · exact h.insert_over hs hheld hsofar _
        · obtain rfl := h.holds_owner hheld hk
          exact (h.abort hk hcheck).insert_over hs hheld hsofar _
        · -- The row is there, in a transaction that can only roll back.
          obtain rfl := h.holds_owner hheld hk
          have hadded := h.addRow hs hk envelope (.ok ()) rfl
          have haborted := hadded.abort (t := t) hk (by simpa using hcheck)
          have hsofar : inserted (Function.update done k
              (done k ++ [⟨.insertRow t envelope, .ok ()⟩]) k) <+: envelopes := by
            rw [Function.update_self, hwrote]
            exact ⟨left, by simp [hleft]⟩
          obtain ⟨s₁, hanswers, hover⟩ := haborted.insert_over hs hheld hsofar
            (.database "inserting an outbox row" error)
          rw [Function.update_idem] at hover
          exact ⟨s₁, hanswers, hover⟩
      | ok _ =>
        obtain ⟨⟨k, hk⟩, rfl⟩ := he
        obtain rfl := h.holds_owner hheld hk
        have hadded := h.addRow hs hk envelope (.ok ()) rfl
        cases left with
        | cons next left => exact hadded
        | nil =>
          have hover := hadded.addRows (i := k) t
          rw [Function.update_self, hwrote, ← hleft, Function.update_idem] at hover
          exact ⟨_, ⟨⟨k, h.transaction hk⟩, rfl⟩, hover⟩

/-- `commit`, once the check is answered. -/
def commitChecked (t : Transaction) : Except String Unit → Executing Msg (Except StoreError Unit)
  | .error error =>
    .ret (.error (.database "checking the inbox transaction before its commit" error))
  | .ok () => .call (.commit t) fun r =>
    .ret (r.mapError (.database "committing an inbox transaction"))

theorem commit_eq : (PostgresInbox.commit t : Executing Msg _) = .call (.check t) (commitChecked t) := by
  unfold PostgresInbox.commit
  refine congrArg _ (funext fun r => ?_)
  cases r <;> rfl

theorem commit_advances {rest : SqlRet Msg statement → Executing Msg (Except StoreError Unit)}
    (h : Represents s' s done) (hheld : s.Holds i t)
    (ha : After (PostgresInbox.commit t) (done i) (.call statement rest))
    (he : s'.Answers times i s'' statement reply) :
    Advances s'' s done i (.commit t) (done i ++ [⟨statement, reply⟩]) (rest reply) := by
  generalize hevs : done i = evs at ha
  rw [commit_eq] at ha
  cases ha with
  | nil =>
    have hover : inserted (done i) = [] := by rw [hevs]; rfl
    cases reply with
    | error error =>
      rcases he with rfl | ⟨k, hk, rfl⟩
      · exact ⟨s, Or.inl rfl, h.finish hover⟩
      · obtain rfl := h.holds_owner hheld hk
        exact ⟨s, Or.inl rfl, (h.abort hk (by simp [hevs])).finish hover⟩
    | ok _ =>
      obtain ⟨⟨k, hk⟩, rfl⟩ := he
      obtain rfl := h.holds_owner hheld hk
      refine h.progress (fun _ _ _ _ => by rw [hevs]; rfl) fun u hu => ?_
      cases List.mem_singleton.mp hu
      exact ⟨.active, hk, nofun⟩
  | @cons _ _ r _ _ ha =>
    cases r with
    | error error => cases ha
    | ok _ =>
      cases ha with
      | cons ha => cases ha
      | nil =>
        -- Checked, so it isn't aborted.
        obtain ⟨checked, hsession, hne⟩ := h.checked i t (by simp [hevs])
        have hover := h.finish (i := i) (by rw [hevs]; rfl)
        have ends {stage : Stage} (hk : s'.sessions t = some (i, .active)) :
            s.Ends (s.setTransaction t i stage.status) t i stage.status ∧
              Represents (s'.setSession t i stage) (s.setTransaction t i stage.status)
                (Function.update done i []) :=
          ⟨⟨fun _ => h.canCommit hk nofun nofun, rfl⟩, hover.moves stage hk nofun (by simp)⟩
        have notAborted {k : Nat} (hk : s'.sessions t = some (k, .aborted)) : False := by
          cases hsession.symm.trans hk
          exact hne rfl
        cases reply with
        | error error =>
          rcases he with rfl | ⟨stage, k, hk, rfl⟩ | ⟨k, hk, rfl⟩
          · exact ⟨s, Or.inl rfl, hover⟩
          · obtain rfl := h.holds_owner hheld hk
            exact ⟨_, Or.inr ⟨⟨_, h.transaction hk⟩, _, (ends hk).1⟩, (ends hk).2⟩
          · exact (notAborted hk).elim
        | ok _ =>
          rcases he with ⟨k, hk, rfl⟩ | ⟨k, hk, rfl⟩
          · obtain rfl := h.holds_owner hheld hk
            exact ⟨_, ⟨⟨_, h.transaction hk⟩, (ends hk).1⟩, (ends hk).2⟩
          · exact (notAborted hk).elim

theorem rollback_advances {rest : SqlRet Msg statement → Executing Msg Unit}
    (h : Represents s' s done) (hheld : s.Holds i t)
    (ha : After (execute (.rollback t)) (done i) (.call statement rest))
    (he : s'.Answers times i s'' statement reply) :
    Advances s'' s done i (.rollback t) (done i ++ [⟨statement, reply⟩]) (rest reply) := by
  generalize hevs : done i = evs at ha
  cases ha with
  | cons ha => cases ha
  | nil =>
    have hover := h.finish (i := i) (by rw [hevs]; rfl)
    have rolled {k : Nat} (stage : Stage) (hs : stage.status = .running)
        (hk : s'.sessions t = some (k, stage)) (hne : stage ≠ .rolledBack) :
        ∃ s₁, s.Answers i s₁ (.rollback t) () ∧
          Represents (s'.setSession t k .rolledBack) s₁ (Function.update done i []) := by
      obtain rfl := h.holds_owner hheld hk
      have ht := h.transaction hk
      rw [hs] at ht
      exact ⟨_, Or.inr ⟨⟨_, ht⟩, rfl⟩, hover.moves .rolledBack hk hne nofun⟩
    rcases he with rfl | ⟨k, hk, rfl⟩ | ⟨k, hk, rfl⟩
    · exact ⟨s, Or.inl rfl, hover⟩
    · exact rolled .active rfl hk nofun
    · exact rolled .aborted rfl hk nofun

theorem Represents.addRun (h : Represents s' s done) (run : HandlerRun) :
    Represents (s'.addRun run) (s.addRun run) done :=
  { h with runs := congrArg (· ++ [run]) h.runs }

theorem Represents.addSent (h : Represents s' s done) (envelope : Envelope) :
    Represents (s'.addSent i envelope) (s.addSent i envelope) done :=
  { h with sent := congrArg (· ++ [(i, envelope)]) h.sent }

theorem Represents.addAcked (h : Represents s' s done) :
    Represents (s'.addAcked i) (s.addAcked i) done :=
  { h with acked := congrArg (· ++ [i]) h.acked }

/-- What isn't the database's. -/
def Passes : Op Msg → Prop
  | .begin | .record _ _ _ | .insert _ _ | .commit _ | .rollback _ => False
  | _ => True

/-- An operation that isn't the database's is the contract's, but that a handler may leave its
    transaction aborted. -/
theorem pass_answers {op : Op Msg} {reply : Ret Msg op} (hop : Passes op) (h : Represents s' s done)
    (hcheck : ∀ t, ⟨.check t, .ok ()⟩ ∉ done i) (he : s'.Answers times i s'' (.pass op) reply) :
    ∃ s₁, s.Answers i s₁ op reply ∧ Represents s'' s₁ done := by
  cases op with
  | handle message context =>
    obtain ⟨published, ended⟩ := reply
    obtain ⟨s₁, rfl | ⟨t, ht, rfl⟩, rfl⟩ := he
    · exact ⟨_, rfl, h.addRun _⟩
    · exact ⟨_, rfl, (h.abort ht (hcheck t)).addRun _⟩
  | publish envelope =>
    rcases he with rfl | ⟨hreply, rfl⟩
    · exact ⟨_, Or.inl rfl, h.addSent envelope⟩
    · exact ⟨_, Or.inr ⟨hreply, rfl⟩, h⟩
  | ack =>
    obtain rfl : s'' = s'.addAcked i := he
    exact ⟨_, rfl, h.addAcked⟩
  | publishError | retry | reject =>
    obtain rfl : s'' = s' := he
    exact ⟨_, rfl, h⟩
  | _ => exact hop.elim

theorem pass_advances {op : Op Msg} (hop : Passes op)
    {rest : SqlRet Msg statement → Executing Msg (Ret Msg op)} (h : Represents s' s done)
    (ha : After (execute (.pass op)) (done i) (.call statement rest))
    (he : s'.Answers times i s'' statement reply) :
    Advances s'' s done i op (done i ++ [⟨statement, reply⟩]) (rest reply) := by
  generalize hevs : done i = evs at ha
  cases ha with
  | cons ha => cases ha
  | nil =>
    obtain ⟨s₁, hanswers, hs₁⟩ := pass_answers hop h (by simp [hevs]) he
    exact ⟨s₁, hanswers, hs₁.finish (by rw [hevs]; rfl)⟩

/-- Whatever the operation: its next statement keeps the relation. -/
theorem exec_advances {op : Op Msg} {g : Phase}
    {rest : SqlRet Msg statement → Executing Msg (Ret Msg op)} (h : Represents s' s done)
    (hs : s.Consistent) (hd : s.deliveries i = some job) (hf : s.Fits i job g)
    (hallowed : g.Allowed job op) (ha : After (statements store uuids op) (done i) (.call statement rest))
    (hids : ∀ u row, statement = .insertReceipt u row → ∀ r ∈ s'.receipts, r.2.id ≠ row.id)
    (he : s'.Answers times i s'' statement reply) :
    Advances s'' s done i op (done i ++ [⟨statement, reply⟩]) (rest reply) := by
  cases op with
  | begin =>
    cases g with
    | started => exact begin_advances h hf ha he
    | _ => exact hallowed.elim
  | record =>
    cases g with
    | begun =>
      obtain ⟨rfl, rfl, rfl⟩ := hallowed
      exact record_advances h hs hd hf ha hids he
    | _ => exact hallowed.elim
  | insert =>
    cases g with
    | ran =>
      obtain ⟨rfl, rfl, _⟩ := hallowed
      exact insert_advances h hs hf.1 ha he
    | _ => exact hallowed.elim
  | commit => exact commit_advances h (Inbox.holds_of_commit hf hallowed) ha he
  | rollback => exact rollback_advances h (Inbox.holds_of_rollback hf hallowed) ha he
  | _ =>
    refine pass_advances ?_ h ha he
    trivial

theorem statements_starts :
    Starts (Op.Proper job.delivery.envelope) fun op : Op Msg => statements store uuids op := by
  intro op hop r hret
  cases op with
  | insert t envelopes =>
    cases envelopes with
    | nil => exact hop rfl
    | cons envelope envelopes =>
      have hinsert : insertAll t (envelope :: envelopes) = .ret r := hret
      rw [insertAll_cons] at hinsert
      cases hinsert
  | _ => cases hret

def NoInsert : Op Msg → Prop
  | .insert _ _ => False
  | _ => True

def NoRow : Sql Msg → Prop
  | .insertRow _ _ => False
  | _ => True

/-- Only an insert inserts. -/
theorem inserted_nil {op : Op Msg} {p : Executing Msg (Ret Msg op)} (hop : NoInsert op)
    (ha : After (statements store uuids op) evs p) : inserted evs = [] := by
  have honly : Only NoRow (statements store uuids op) := by
    cases op with
    | insert => exact hop.elim
    | record =>
      refine ⟨trivial, fun id => ⟨trivial, fun r => ?_⟩⟩
      cases r <;> trivial
    | commit =>
      refine ⟨trivial, fun r => ?_⟩
      cases r with
      | error error => trivial
      | ok _ => exact ⟨trivial, fun _ => trivial⟩
    | _ => exact ⟨trivial, fun _ => trivial⟩
  refine List.filterMap_eq_nil_iff.mpr ?_
  rintro ⟨statement, reply⟩ hm
  have hnot : NoRow statement := honly.after ha _ hm
  cases statement with
  | insertRow => exact hnot.elim
  | _ => rfl

/-- A new delivery. -/
theorem Represents.launch (h : Represents s' s done)
    (htime : ∀ k other, s.deliveries k = some other →
      other.delivery.envelope.id = job.delivery.envelope.id →
        other.delivery.envelope.time = job.delivery.envelope.time) :
    Represents { s' with deliveries := Function.update s'.deliveries i (some job) }
      { s with deliveries := Function.update s.deliveries i (some job) } done := by
  refine { h with deliveries := ?_, oneTime := ?_ }
  · dsimp only
    rw [h.deliveries]
  · intro k l first second hk hl hid
    rcases System.update_eq_some.mp hk with ⟨_, hk⟩ | ⟨_, hk⟩
    · cases hk
      rcases System.update_eq_some.mp hl with ⟨_, hl⟩ | ⟨_, hl⟩
      · cases hl
        rfl
      · exact (htime l second hl hid.symm).symm
    · rcases System.update_eq_some.mp hl with ⟨_, hl⟩ | ⟨_, hl⟩
      · cases hl
        exact htime k first hk hid
      · exact h.oneTime k l first second hk hl hid

/-- What the database does on its own. -/
theorem Represents.resolves (h : Represents s' s done) (he : s'.Resolves s'' t) :
    ∃ s₁, s.Resolves s₁ t ∧ Represents s'' s₁ done := by
  rcases he with ⟨k, hk, rfl⟩ | ⟨k, hk, rfl⟩ | ⟨k, hk, rfl⟩ | ⟨k, hk, rfl⟩
  · exact ⟨_, ⟨k, Or.inl ⟨h.transaction hk, rfl⟩⟩, h.moves .rolledBack hk nofun nofun⟩
  · exact ⟨_, ⟨k, Or.inl ⟨h.transaction hk, rfl⟩⟩, h.moves .rolledBack hk nofun nofun⟩
  · have hcan := h.canCommit hk nofun nofun
    exact ⟨_, ⟨k, Or.inr ⟨h.transaction hk, .committed, fun _ => hcan, rfl⟩⟩,
      h.moves .committed hk nofun nofun⟩
  · exact ⟨_, ⟨k, Or.inr ⟨h.transaction hk, .rolledBack, nofun, rfl⟩⟩,
      h.moves .rolledBack hk nofun nofun⟩

end Changes

/-! ## Every run -/

section Runs

variable {times : PgTimes} {uuids : UuidFormat} {store : InboxDelivery Msg → PostgresInbox}

/-- The statement's reply of a delivery that is at an operation. -/
theorem reach_advances {st' : SqlPool Msg} {st : Inbox.Pool Msg}
    {done : Nat → List (Event (Sql Msg) (SqlRet Msg))} {i : Nat} {job : InboxDelivery Msg}
    {op : Op Msg} {next : Ret Msg op → Handling Msg Unit} {statement : Sql Msg}
    {reply : SqlRet Msg statement} {rest : SqlRet Msg statement → Executing Msg (Ret Msg op)}
    {sh' : SqlInbox Msg} (hreach : (inbox Msg).Reach Inbox.Empty Any st)
    (h : Represents st'.shared st.shared done) (hp : st.procs i = some ⟨job, .call op next⟩)
    (ha : After (statements (store job) uuids op) (done i) (.call statement rest))
    (he : st'.shared.Answers times i sh' statement reply)
    (hc : UniqueIds st' (.exec i statement reply)) :
    Advances sh' st.shared done i op (done i ++ [⟨statement, reply⟩]) (rest reply) := by
  obtain ⟨g, hd, hf, hallowed⟩ := Inbox.asks hreach hp
  refine exec_advances h (Inbox.consistent hreach) hd hf hallowed ha ?_ he
  rintro u row rfl
  exact hc

/-- The inbox over PostgreSQL refines the inbox's contract. -/
theorem sqlInbox_refines : Refines (sqlInbox times uuids store) (inbox Msg)
    (fun job => Op.Proper job.delivery.envelope) (fun job => statements (store job) uuids)
    Inbox.Empty UniqueIds Represents where
  body _ := rfl
  only job := Endpoint.process_proper _ _ job.delivery
  starts _ := statements_starts
  launch := by
    rintro st' st done i job sh' _ h _ _ ⟨hn, rfl⟩ hc
    refine ⟨_, ⟨h.deliveries ▸ hn, rfl⟩, h.launch ?_⟩
    rw [h.deliveries]
    exact hc
  goes := by
    intro st' st done i job op next statement rest reply sh' hreach h hp ha hne he hc
    have hadvances := reach_advances hreach h hp ha he hc
    cases hrest : rest reply with
    | ret r => exact absurd hrest (hne r)
    | call =>
      rw [hrest] at hadvances
      exact hadvances
  last := by
    intro st' st done i job op next statement rest reply r sh' hreach h hp ha hrest he hc
    have hadvances := reach_advances hreach h hp ha he hc
    rw [hrest] at hadvances
    exact hadvances
  leave := by
    rintro st' st done i ⟨job, p⟩ q sh' hreach h hp hw rfl _
    dsimp only at hw ⊢
    rcases hw.stopped with ⟨_, _, hnil⟩ | ⟨op, next, rest, rfl, ha, hne⟩
    · exact ⟨_, Or.inl rfl, h.finish (by rw [hnil]; rfl)⟩
    · cases op with
      | insert t envelopes =>
        -- The rows so far are there, like those of an insert that reports an error.
        obtain ⟨g, _, hf, hallowed⟩ := Inbox.asks hreach hp
        rcases after_insertAll ha with ⟨r, hret⟩ | ⟨left, hleft, _⟩
        · exact absurd hret (hne r)
        · obtain ⟨s₁, hanswers, hs₁⟩ := h.insert_over (Inbox.consistent hreach)
            (Inbox.holds_of_insert hf hallowed) ⟨left, hleft.symm⟩ (.database "" "")
          exact ⟨s₁, Or.inr ⟨.insert t envelopes, next, .error (.database "" ""), s₁, rfl, hanswers,
            rfl⟩, hs₁⟩
      | _ =>
        refine ⟨_, Or.inl rfl, h.finish (inserted_nil ?_ ha)⟩
        trivial
  env := by
    intro st' st done t sh' _ h he _
    obtain ⟨s₁, hresolves, hs₁⟩ := h.resolves he
    exact ⟨[t], ⟨st.procs, s₁⟩, .cons hresolves trivial .nil, hs₁⟩

theorem represents_empty {sh' : SqlInbox Msg} (h : sh'.Empty) :
    ∃ sh : Inbox Msg, sh.Empty ∧ Represents sh' sh fun _ => [] := by
  obtain ⟨hd, ht, hreceipts, hrows, hruns, hsent, hacked⟩ := h
  refine ⟨⟨fun _ => none, fun _ => none, [], [], [], [], []⟩,
    ⟨fun _ => rfl, fun _ => rfl, rfl, rfl, rfl, rfl, rfl⟩, ?_⟩
  constructor
  · exact funext fun i => (hd i).symm
  · intro t
    rw [ht]
    rfl
  · rw [hreceipts]
    exact .nil
  · intro r hr
    cases hr
  · intro i j job other hi
    cases hi
  · intro t i stage hi
    rw [ht] at hi
    cases hi
  · intro t _
    rw [SqlInbox.rowsIn, hrows]
    rfl
  · exact nofun
  · exact hruns.symm
  · exact hsent.symm
  · exact hacked.symm

/-- A delivery with a committed transaction inserts nothing more. -/
theorem inserted_committed {st' : SqlPool Msg} {st : Inbox.Pool Msg}
    {done : Nat → List (Event (Sql Msg) (SqlRet Msg))} {i : Nat} {t : Transaction}
    (hreach : (inbox Msg).Reach Inbox.Empty Any st)
    (hf : Follows (fun job => Op.Proper job.delivery.envelope)
      (fun job => statements (store job) uuids) (st'.procs i) (st.procs i) (done i))
    (ht : st.shared.transactions t = some (i, .committed)) : inserted (done i) = [] := by
  cases hp' : st'.procs i with
  | none =>
    rw [hp'] at hf
    rw [(System.follows_none hf).2]
    rfl
  | some p' =>
    rw [hp'] at hf
    obtain ⟨rest, hp, hw⟩ := System.follows_some hf
    rcases hw.stopped with ⟨_, _, hnil⟩ | ⟨op, next, left, rfl, ha, _⟩
    · rw [hnil]
      rfl
    · cases op with
      | insert t' envelopes =>
        obtain ⟨g, _, hfits, hallowed⟩ := Inbox.asks hreach hp
        have hheld := Inbox.holds_of_insert hfits hallowed
        exact absurd (Or.inl rfl) (hheld.not_ended (Inbox.consistent hreach) ht)
      | _ =>
        refine inserted_nil ?_ ha
        trivial

/-- What a run over PostgreSQL and a run of the contract have in common. -/
structure Agrees (st' : SqlPool Msg) (st : Inbox.Pool Msg) : Prop where
  jobs : ∀ i, (st'.procs i).map (·.job) = (st.procs i).map (·.job)
  deliveries : st.shared.deliveries = st'.shared.deliveries
  transactions : ∀ t,
    st.shared.transactions t = (st'.shared.sessions t).map fun x => (x.1, x.2.status)
  receipts : List.Forall₂ StandsFor st'.shared.receipts st.shared.receipts
  rows : ∀ i t, st'.shared.sessions t = some (i, .committed) →
    st'.shared.rowsIn t = (st.shared.rowsOf i).map (·.envelope)
  runs : st.shared.runs = st'.shared.runs
  sent : st.shared.sent = st'.shared.sent
  acked : st.shared.acked = st'.shared.acked

theorem Represents.agrees {st' : SqlPool Msg} {st : Inbox.Pool Msg}
    {done : Nat → List (Event (Sql Msg) (SqlRet Msg))}
    (hR : Represents st'.shared st.shared done) (hreach : (inbox Msg).Reach Inbox.Empty Any st)
    (hf : ∀ i, Follows (fun job => Op.Proper job.delivery.envelope)
      (fun job => statements (store job) uuids) (st'.procs i) (st.procs i) (done i)) :
    Agrees st' st := by
  refine ⟨?_, hR.deliveries, hR.transactions, hR.receipts, ?_, hR.runs, hR.sent, hR.acked⟩
  · intro i
    have hfi := hf i
    cases hp' : st'.procs i with
    | none =>
      rw [hp'] at hfi
      rw [(System.follows_none hfi).1]
      rfl
    | some p' =>
      rw [hp'] at hfi
      obtain ⟨rest, hp, _⟩ := System.follows_some hfi
      rw [hp]
      rfl
  · intro i t ht
    rw [hR.rows t i .committed ht nofun, inserted_committed hreach (hf i) (hR.transaction ht),
      List.append_nil]

/-- Every run over PostgreSQL is one of the contract: the same deliveries with the same transactions,
    receipts, committed rows, runs, sends and acks. -/
theorem sqlInbox_contract (st' : SqlPool Msg)
    (h : (sqlInbox times uuids store).Reach SqlInbox.Empty UniqueIds st') :
    ∃ st, (inbox Msg).Reach Inbox.Empty (fun _ _ => True) st ∧ Agrees st' st := by
  obtain ⟨st, done, hreach, hf, hR⟩ := h.refined sqlInbox_refines fun _ h0 => represents_empty h0
  exact ⟨st, hreach, hR.agrees hreach hf⟩

end Runs

/-- A delivery that publishes, statement by statement. -/
theorem sqlInbox_contract_billed : ∃ (context : HandlerContext (Option Transaction))
    (st' : SqlPool Unit) (st : Inbox.Pool Unit), st'.shared.acked = [0] ∧
      st'.shared.rows = [(⟨0⟩, context.envelopeOf invoiceSent)] ∧
      (inbox Unit).Reach Inbox.Empty (fun _ _ => True) st ∧ Agrees st' st := by
  let context : HandlerContext (Option Transaction) :=
    ⟨billed.source, "billing", orderShipped, 1, [], some ⟨0⟩⟩
  let receipt := PostgresInbox.new.receipt .rfc9562 ⟨7⟩ "billing" orderShipped
  have h0 : (sqlInbox .utc .rfc9562 fun _ : InboxDelivery Unit => .new).Reach SqlInbox.Empty UniqueIds
      ⟨fun _ => none, fun _ => none, fun _ => none, [], [], [], [], []⟩ :=
    .init ⟨fun _ => rfl, fun _ => rfl, rfl, rfl, rfl, rfl, rfl⟩
  have h1 := h0.launch 0 billed rfl ⟨rfl, rfl⟩ (by simp [UniqueIds])
  have h2 := h1.exec 0 .begin (.ok ⟨0⟩) rfl ⟨rfl, rfl⟩ trivial
  have h3 := h2.exec 0 .newId ⟨7⟩ rfl rfl trivial
  have h4 := h3.exec 0 (.insertReceipt ⟨0⟩ receipt) (.ok 1) rfl
    ⟨⟨0, rfl⟩, PgTimes.utc_cast_toText _, Or.inl ⟨rfl, ?free, rfl⟩⟩ ?ids
  have h5 := h4.exec 0 (.pass (.handle () context)) ([invoiceSent], .ok) rfl
    ⟨_, Or.inl rfl, rfl⟩ trivial
  have h6 := h5.exec 0 (.insertRow ⟨0⟩ (context.envelopeOf invoiceSent)) (.ok ()) rfl
    ⟨⟨0, rfl⟩, rfl⟩ trivial
  have h7 := h6.exec 0 (.check ⟨0⟩) (.ok ()) rfl ⟨⟨0, rfl⟩, rfl⟩ trivial
  have h8 := h7.exec 0 (.commit ⟨0⟩) (.ok ()) rfl (Or.inl ⟨0, rfl, rfl⟩) trivial
  have h9 := h8.exec 0 (.pass .ack) (.ok ()) rfl rfl trivial
  obtain ⟨st, hst⟩ := sqlInbox_contract _ h9
  exact ⟨context, _, st, rfl, rfl, hst⟩
  case free | ids =>
    intro r hr
    cases hr

end SisaMessaging.Postgres
