/-
  One call of `claim`, statement by statement.

  The claim is a committed `UPDATE`, followed by a committed mark for each of its rows that isn't a
  record. `ClaimCall` says in which order the first one visits the rows and how each statement ends,
  and `run` what the call then returns and leaves. `claim_error_untouched_iff`: when a failed call
  has claimed nothing. `claim_accounts_iff`: when a call whose statements are all executed accounts
  for each row.
-/
import SisaMessaging.Lib.Forall2
import SisaMessaging.Postgres.OutboxTable

namespace SisaMessaging.Postgres

open SisaMessaging.Core SisaMessaging.Lib
open SisaMessaging.Lib.Prog (interpret)

/-! ## Statements of a call -/

/-- How a statement ended: executed; refused, without an effect; or executed with its reply lost. -/
inductive Outcome where
  | executed
  | refused (error : String)
  | lost (error : String)
  deriving DecidableEq

/-- One call of `claim`. -/
structure ClaimCall where
  round : Nat
  /-- The rows as the first statement visits them. -/
  scan : List RowKey
  /-- The rows that another statement has locked. -/
  locked : RowKey → Bool
  /-- When each statement runs. -/
  now : Nat → Int
  outcomes : Nat → Outcome
  /-- The client's error for what it can't bind or decode. -/
  clientError : String

/-- `sqlx` decodes all of a claim's rows, or none. -/
def decodeRows (error : String) (keys : List RowKey) (row : RowKey → Option ClaimedRow) :
    Except String (List ClaimedRow) :=
  if keys.all fun key => (row key).isSome then .ok (keys.filterMap row) else .error error

/-- A row as the claim that leases it until `due` selects it. -/
def taken (times : PgTimes) (table : OutboxTable) (due : Int) (key : RowKey) : Option ClaimedRow :=
  (table.rows key).bind fun row => claimedRow times key { row with availableAt := due }

/-- The table, and how many statements have run. -/
abbrev Progress := OutboxTable × Nat

/-- The row is pending and its due time has come. -/
def isDue (table : OutboxTable) (now : Int) (key : RowKey) : Bool :=
  (table.rows key).any fun row => row.status == .pending && decide (row.availableAt ≤ now)

namespace ClaimCall

/-- The rows that the first statement takes: `LIMIT limit FOR UPDATE SKIP LOCKED` of the due pending
    ones it visits. -/
def select (call : ClaimCall) (table : OutboxTable) (limit : Nat) (now : Int) : List RowKey :=
  (call.scan.filter fun key => isDue table now key && !call.locked key).take limit

/-- A statement with its effect and its reply. -/
def statement {α : Type} (call : ClaimCall) (effect : OutboxTable) (reply : Except String α) :
    Progress → Except String α × Progress
  | (table, n) =>
    match call.outcomes n with
    | .executed => (reply, effect, n + 1)
    | .refused error => (.error error, table, n + 1)
    | .lost error => (.error error, effect, n + 1)

/-- What an operation of the call does. A claim performs no other statements. -/
def answer (times : PgTimes) (call : ClaimCall) :
    (op : DispatchOp) → Progress → DispatchRet op × Progress
  | .claimDue limit lease, (table, n) =>
    match interval lease with
    | none => (.error call.clientError, table, n + 1)
    | some span =>
      let keys := call.select table limit (call.now n)
      call.statement (table.claim call.round keys (call.now n) (call.now n + span))
        (decodeRows call.clientError keys (taken times table (call.now n + span))) (table, n)
  | .failUnreadable mark error, (table, n) =>
    call.statement (table.update (Mark.anyHits times [mark])
      (OutboxRow.failUnreadable error (call.now n)) (call.now n)) (.ok ()) (table, n)
  | .setDispatched _, progress => (.error call.clientError, progress)
  | .putBack _ _ _, progress => (.error call.clientError, progress)
  | .setFailed _ _, progress => (.error call.clientError, progress)
  | .publish _ _, progress => (.elapsed, progress)
  | .now, progress => ((0 : Nat), progress)
  | .stopping, progress => (false, progress)

/-- What the call returns, and the table it leaves. -/
def run (uuids : UuidFormat) (times : PgTimes) (debug : String → String) (call : ClaimCall)
    (limit : Nat) (lease : Duration) (table : OutboxTable) :
    Except StoreError (List OutboxRecord) × OutboxTable :=
  let (result, (left, _), _) := interpret (call.answer times) (claim uuids debug limit lease) (table, 0)
  (result, left)

end ClaimCall

/-! ## The rows a call takes -/

/-- The rows of the oldest ids among the due pending ones that no other statement has locked, up to
    `limit`. -/
structure OldestDue (table : OutboxTable) (limit : Nat) (now : Int) (locked : RowKey → Prop)
    (keys : List RowKey) : Prop where
  nodup : keys.Nodup
  bounded : keys.length ≤ limit
  ordered : keys.Pairwise fun key other => key.2 ≤ other.2
  due : ∀ key ∈ keys, ¬locked key ∧ ∃ row, table.rows key = some row ∧ row.status = .pending ∧
    row.availableAt ≤ now
  oldest : ∀ key row, table.rows key = some row → row.status = .pending → row.availableAt ≤ now →
    ¬locked key → key ∉ keys → keys.length = limit ∧ ∀ other ∈ keys, other.2 ≤ key.2

/-- Each row of the table is visited once, by id. -/
structure Scans (table : OutboxTable) (scan : List RowKey) : Prop where
  nodup : scan.Nodup
  ordered : scan.Pairwise fun key other => key.2 ≤ other.2
  complete : ∀ key row, table.rows key = some row → key ∈ scan

section Select

variable {call : ClaimCall} {table : OutboxTable} {limit : Nat} {now : Int} {key : RowKey}

theorem isDue_iff : isDue table now key = true ↔
    ∃ row, table.rows key = some row ∧ row.status = .pending ∧ row.availableAt ≤ now := by
  simp [isDue, Option.any_eq_true]

theorem select_sublist : (call.select table limit now).Sublist call.scan :=
  (List.take_sublist _ _).trans List.filter_sublist

theorem mem_select (h : key ∈ call.select table limit now) :
    isDue table now key = true ∧ call.locked key = false := by
  have hfilter := (List.mem_filter.mp (List.mem_of_mem_take h)).2
  simpa using hfilter

/-- The rows left out come after the taken ones, and there are some only when the limit is
    reached. -/
theorem left_out (h : Scans table call.scan) (hdue : isDue table now key = true)
    (hlocked : call.locked key = false) (hnot : key ∉ call.select table limit now) :
    (call.select table limit now).length = limit ∧
      ∀ other ∈ call.select table limit now, other.2 ≤ key.2 := by
  obtain ⟨row, hrow, _⟩ := isDue_iff.mp hdue
  unfold ClaimCall.select at hnot ⊢
  generalize hcandidates : (call.scan.filter fun key => isDue table now key && !call.locked key) =
    candidates at hnot ⊢
  have hmem : key ∈ candidates := by
    rw [← hcandidates]
    exact List.mem_filter.mpr ⟨h.complete key row hrow, by rw [hdue, hlocked]; rfl⟩
  have hordered : candidates.Pairwise fun key other => key.2 ≤ other.2 :=
    h.ordered.sublist (hcandidates ▸ List.filter_sublist)
  rw [← List.take_append_drop limit candidates] at hmem hordered
  have hdrop : key ∈ candidates.drop limit := (List.mem_append.mp hmem).resolve_left hnot
  refine ⟨?_, fun other hother => (List.pairwise_append.mp hordered).2.2 other hother key hdrop⟩
  have hlength := List.length_pos_of_mem hdrop
  rw [List.length_drop] at hlength
  exact List.length_take_of_le (by omega)

/-- The first statement takes the oldest due rows. -/
theorem Scans.oldestDue (h : Scans table call.scan) :
    OldestDue table limit now (fun key => call.locked key = true)
      (call.select table limit now) where
  nodup := h.nodup.sublist select_sublist
  bounded := List.length_take_le _ _
  ordered := h.ordered.sublist select_sublist
  due key hkey := by
    obtain ⟨hdue, hlocked⟩ := mem_select hkey
    exact ⟨by simp [hlocked], isDue_iff.mp hdue⟩
  oldest key row hrow hpending hdue hlocked hkey :=
    left_out h (isDue_iff.mpr ⟨row, hrow, hpending, hdue⟩) (Bool.not_eq_true _ ▸ hlocked) hkey

end Select

/-! ## Reading the claimed rows -/

section ReadRows

variable {uuids : UuidFormat} {times : PgTimes} {debug : String → String} {call : ClaimCall}
  {row : ClaimedRow} {rows : List ClaimedRow} {progress : Progress}

/-- The mark of a row that isn't a record: its error. -/
def unreadableError (debug : String → String) (error : RecordError) : String :=
  "not a valid envelope: " ++ error.toText debug

/-- The row isn't a record. -/
def unreadable (uuids : UuidFormat) (row : ClaimedRow) : Bool := !(record uuids row).isOk

theorem unreadable_of_ok {r : OutboxRecord} (h : record uuids row = .ok r) :
    unreadable uuids row = false := by
  simp [unreadable, h, Except.isOk, Except.toBool]

theorem unreadable_of_error {error : RecordError} (h : record uuids row = .error error) :
    unreadable uuids row = true := by
  simp [unreadable, h, Except.isOk, Except.toBool]

/-- What reading the rows returns, and how far it gets. -/
def readResult (uuids : UuidFormat) (times : PgTimes) (debug : String → String) (call : ClaimCall)
    (rows : List ClaimedRow) (progress : Progress) :
    Except StoreError (List OutboxRecord) × Progress :=
  let (result, left, _) := interpret (call.answer times) (readRows uuids debug rows) progress
  (result, left)

theorem readResult_record {r : OutboxRecord} (h : record uuids row = .ok r) :
    readResult uuids times debug call (row :: rows) progress =
      ((readResult uuids times debug call rows progress).1.map (r :: ·),
        (readResult uuids times debug call rows progress).2) := by
  unfold readResult
  rw [readRows, h]
  dsimp only
  rw [Prog.interpret_bind _ _ rfl]
  cases (interpret (call.answer times) (readRows uuids debug rows) progress).1 with
  | error error => rfl
  | ok records => rfl

/-- The mark of an unreadable row: executed, the reading goes on; else it is over. -/
theorem readResult_unreadable {error : RecordError} (h : record uuids row = .error error) :
    readResult uuids times debug call (row :: rows) progress =
      let marked := progress.1.update (Mark.anyHits times [row.mark])
        (OutboxRow.failUnreadable (unreadableError debug error) (call.now progress.2))
        (call.now progress.2)
      match call.outcomes progress.2 with
      | .executed => readResult uuids times debug call rows (marked, progress.2 + 1)
      | .refused error => (.error (.database "marking an unreadable outbox row failed" error),
          progress.1, progress.2 + 1)
      | .lost error => (.error (.database "marking an unreadable outbox row failed" error),
          marked, progress.2 + 1) := by
  obtain ⟨table, n⟩ := progress
  unfold readResult
  rw [readRows, h]
  dsimp only
  rw [perform, Prog.interpret_perform]
  simp only [ClaimCall.answer, ClaimCall.statement]
  cases call.outcomes n <;> rfl

/-! ## What the marks change -/

/-- The row is as the claim that leases it until `due` selected it. -/
def Claimed (times : PgTimes) (table : OutboxTable) (due : Int) (key : RowKey)
    (claimed : ClaimedRow) : Prop :=
  ∃ row, table.rows key = some row ∧ row.status = .pending ∧ row.availableAt = due ∧
    claimedRow times key row = some claimed

/-- What reading makes of a claimed row. -/
def afterRead (uuids : UuidFormat) (debug : String → String) (claimed : ClaimedRow)
    (row : OutboxRow) : OutboxRow :=
  match record uuids claimed with
  | .ok _ => row
  | .error error => row.failUnreadable (unreadableError debug error) 0

theorem mark_anyHits {table : OutboxTable} {due : Int} {key : RowKey} {claimed : ClaimedRow}
    (h : Claimed times table due key claimed) {other : RowKey} {row : OutboxRow}
    (hr : table.rows other = some row) :
    Mark.anyHits times [claimed.mark] other row = decide (other = key) := by
  obtain ⟨claimedRow, hrow, hpending, hdue, hclaimed⟩ := h
  have hmark := (claimedRow_eq hclaimed).1
  have hhits : Mark.anyHits times [claimed.mark] other row = claimed.mark.hits times other row := by
    simp [Mark.anyHits]
  rw [hhits, Bool.eq_iff_iff, Mark.hits_iff, hmark, key_markAt, decide_eq_true_eq,
    Option.some.injEq]
  constructor
  · exact fun hit => hit.2.1.symm
  · rintro rfl
    rw [hrow, Option.some.injEq] at hr
    subst hr
    exact ⟨hpending, rfl, times.cast_json _⟩

/-- A mark of a claimed row changes this row. -/
theorem rows_mark {table : OutboxTable} {due : Int} {key : RowKey} {claimed : ClaimedRow}
    (h : Claimed times table due key claimed) (set : OutboxRow → OutboxRow) (now : Int)
    (other : RowKey) :
    (table.update (Mark.anyHits times [claimed.mark]) set now).rows other =
      (table.rows other).map fun row => if other = key then set row else row := by
  cases hr : table.rows other with
  | none => simp [OutboxTable.update, hr]
  | some row => simp [OutboxTable.update, hr, mark_anyHits h hr]

theorem Claimed.mark_other {table : OutboxTable} {due : Int} {key other : RowKey}
    {claimed claimedOther : ClaimedRow} (h : Claimed times table due key claimed)
    (ho : Claimed times table due other claimedOther) (hne : other ≠ key)
    (set : OutboxRow → OutboxRow) (now : Int) :
    Claimed times (table.update (Mark.anyHits times [claimed.mark]) set now) due other
      claimedOther := by
  obtain ⟨row, hrow, hrest⟩ := ho
  exact ⟨row, by rw [rows_mark h, hrow, Option.map_some, if_neg hne], hrest⟩

variable {table : OutboxTable} {due : Int} {keys : List RowKey} {n : Nat}

theorem forall₂_mark {key : RowKey} {claimed : ClaimedRow} (h : Claimed times table due key claimed)
    (hk : key ∉ keys) (hs : List.Forall₂ (Claimed times table due) keys rows)
    (set : OutboxRow → OutboxRow) (now : Int) :
    List.Forall₂ (Claimed times (table.update (Mark.anyHits times [claimed.mark]) set now) due)
      keys rows := by
  induction hs with
  | nil => exact .nil
  | cons ho _ ih =>
    rw [List.mem_cons, not_or] at hk
    exact .cons (h.mark_other ho (Ne.symm hk.1) set now) (ih hk.2)

/-- Reading moves no due time. -/
theorem readResult_availableAt (hd : keys.Nodup)
    (h : List.Forall₂ (Claimed times table due) keys rows) (key : RowKey) :
    ((readResult uuids times debug call rows (table, n)).2.1.rows key).map OutboxRow.availableAt =
      (table.rows key).map OutboxRow.availableAt := by
  induction keys generalizing rows table n with
  | nil =>
    cases h
    rfl
  | cons first keys ih =>
    cases h with | @cons _ claimed _ rows hfirst hrest =>
    obtain ⟨hnot, hd⟩ := List.nodup_cons.mp hd
    have hmark : ∀ error now, ((table.update (Mark.anyHits times [claimed.mark])
        (OutboxRow.failUnreadable error now) now).rows key).map OutboxRow.availableAt =
          (table.rows key).map OutboxRow.availableAt := by
      intro error now
      rw [rows_mark hfirst]
      cases table.rows key with
      | none => rfl
      | some row =>
        simp only [Option.map_some]
        split <;> rfl
    cases hr : record uuids claimed with
    | ok r =>
      rw [readResult_record hr]
      exact ih hd hrest
    | error error =>
      rw [readResult_unreadable hr]
      dsimp only
      cases call.outcomes n with
      | executed => exact (ih hd (forall₂_mark hfirst hnot hrest _ _)).trans (hmark _ _)
      | refused => rfl
      | lost => exact hmark _ _

/-- Reading succeeds when the marks of the unreadable rows are executed. -/
theorem readResult_isOk_iff : (readResult uuids times debug call rows progress).1.isOk = true ↔
    ∀ i < (rows.filter (unreadable uuids)).length, call.outcomes (progress.2 + i) = .executed := by
  induction rows generalizing progress with
  | nil => exact iff_of_true rfl fun i hi => absurd hi (Nat.not_lt_zero i)
  | cons row rows ih =>
    cases hr : record uuids row with
    | ok r =>
      rw [readResult_record hr, List.filter_cons_of_neg (by simp [unreadable_of_ok hr]), ← ih]
      cases (readResult uuids times debug call rows progress).1 <;> rfl
    | error error =>
      rw [readResult_unreadable hr, List.filter_cons_of_pos (unreadable_of_error hr),
        List.length_cons]
      dsimp only
      have hfirst : ∀ outcome, call.outcomes progress.2 = outcome → outcome ≠ .executed →
          ¬∀ i < (rows.filter (unreadable uuids)).length + 1,
            call.outcomes (progress.2 + i) = .executed := by
        intro outcome ho hne hall
        exact hne (ho.symm.trans (hall 0 (Nat.succ_pos _)))
      cases ho : call.outcomes progress.2 with
      | executed =>
        dsimp only
        rw [ih]
        constructor
        · intro hall i hi
          cases i with
          | zero => exact ho
          | succ i =>
            have := hall i (Nat.lt_of_succ_lt_succ hi)
            rwa [Nat.add_assoc, Nat.add_comm 1] at this
        · intro hall i hi
          have := hall (i + 1) (Nat.succ_lt_succ hi)
          rwa [Nat.add_assoc, Nat.add_comm 1]
      | refused error => exact iff_of_false (by simp [Except.isOk, Except.toBool]) (hfirst _ ho (by simp))
      | lost error => exact iff_of_false (by simp [Except.isOk, Except.toBool]) (hfirst _ ho (by simp))

/-- What reading returns and leaves when every mark is executed. -/
theorem readResult_of_executed (uuids : UuidFormat) (debug : String → String) (n : Nat)
    (hall : ∀ m, call.outcomes m = .executed) (hd : keys.Nodup)
    (h : List.Forall₂ (Claimed times table due) keys rows) :
    (readResult uuids times debug call rows (table, n)).1 =
      .ok (rows.filterMap fun row => (record uuids row).toOption) ∧
    (∀ key ∉ keys, (readResult uuids times debug call rows (table, n)).2.1.rows key =
      table.rows key) ∧
    List.Forall₂ (fun key claimed => ∃ row, table.rows key = some row ∧
      (readResult uuids times debug call rows (table, n)).2.1.rows key =
        some (afterRead uuids debug claimed row)) keys rows := by
  induction keys generalizing rows table n with
  | nil =>
    cases h
    exact ⟨rfl, fun _ _ => rfl, .nil⟩
  | cons first keys ih =>
    cases h with | @cons _ claimed _ rows hfirst hrest =>
    obtain ⟨hnot, hd⟩ := List.nodup_cons.mp hd
    obtain ⟨row, hrow, _⟩ := id hfirst
    cases hr : record uuids claimed with
    | ok r =>
      obtain ⟨hresult, hothers, hrows⟩ := ih n hd hrest
      rw [readResult_record hr]
      refine ⟨?_, fun key hk => hothers key fun hm => hk (List.mem_cons_of_mem _ hm), .cons ?_ hrows⟩
      · dsimp only
        rw [hresult, List.filterMap_cons_some (b := r) (by rw [hr]; rfl)]
        rfl
      · refine ⟨row, hrow, ?_⟩
        rw [afterRead, hr]
        exact (hothers first hnot).trans hrow
    | error error =>
      rw [readResult_unreadable hr]
      dsimp only
      rw [hall n]
      dsimp only
      have hmarked := rows_mark hfirst
        (OutboxRow.failUnreadable (unreadableError debug error) (call.now n)) (call.now n)
      obtain ⟨hresult, hothers, hrows⟩ := ih (n + 1) hd (forall₂_mark hfirst hnot hrest
        (OutboxRow.failUnreadable (unreadableError debug error) (call.now n)) (call.now n))
      refine ⟨?_, fun key hk => ?_, .cons ?_ ?_⟩
      · rw [hresult, List.filterMap_cons_none (by rw [hr]; rfl)]
      · rw [List.mem_cons, not_or] at hk
        rw [hothers key hk.2, hmarked]
        simp [hk.1]
      · refine ⟨row, hrow, ?_⟩
        rw [hothers first hnot, hmarked, hrow, afterRead, hr]
        simp [OutboxRow.failUnreadable]
      · refine (forall₂_mem hrows).imp fun key claimed' ⟨hk, row', hrow', hleft⟩ => ?_
        have hne : key ≠ first := fun heq => hnot (heq ▸ hk)
        rw [hmarked] at hrow'
        obtain ⟨row, hrow, rfl⟩ := Option.map_eq_some_iff.mp hrow'
        rw [if_neg hne] at hleft
        exact ⟨row, hrow, hleft⟩

end ReadRows

/-! ## The whole call -/

section Call

variable {uuids : UuidFormat} {times : PgTimes} {debug : String → String} {call : ClaimCall}
  {limit : Nat} {lease : Duration} {table : OutboxTable}

/-- The rows that the call takes. -/
def ClaimCall.keys (call : ClaimCall) (limit : Nat) (table : OutboxTable) : List RowKey :=
  call.select table (min limit (2 ^ 63 - 1)) (call.now 0)

/-- The table after the first statement, which leases its rows until `due`. -/
def ClaimCall.claimed (call : ClaimCall) (limit : Nat) (table : OutboxTable) (due : Int) :
    OutboxTable :=
  table.claim call.round (call.keys limit table) (call.now 0) due

/-- What the call makes of the first statement's reply. -/
def readReply (uuids : UuidFormat) (times : PgTimes) (debug : String → String) (call : ClaimCall)
    (reply : Except String (List ClaimedRow)) (progress : Progress) :
    Except StoreError (List OutboxRecord) × OutboxTable :=
  match reply with
  | .error error => (.error (.database "claiming outbox rows" error), progress.1)
  | .ok rows =>
    ((readResult uuids times debug call rows progress).1,
      (readResult uuids times debug call rows progress).2.1)

theorem run_eq : call.run uuids times debug limit lease table =
    readReply uuids times debug call
      (call.answer times (.claimDue (min limit (2 ^ 63 - 1)) lease) (table, 0)).1
      (call.answer times (.claimDue (min limit (2 ^ 63 - 1)) lease) (table, 0)).2 := by
  unfold ClaimCall.run claim
  rw [perform, Prog.interpret_perform]
  generalize call.answer times (.claimDue (min limit (2 ^ 63 - 1)) lease) (table, 0) = answered
  obtain ⟨reply, progress⟩ := answered
  cases reply <;> rfl

theorem run_unbound (h : interval lease = none) : call.run uuids times debug limit lease table =
    (.error (.database "claiming outbox rows" call.clientError), table) := by
  simp [run_eq, readReply, ClaimCall.answer, h]

variable {span : Int}

theorem run_refused (h : interval lease = some span) {error : String}
    (ho : call.outcomes 0 = .refused error) : call.run uuids times debug limit lease table =
      (.error (.database "claiming outbox rows" error), table) := by
  simp [run_eq, readReply, ClaimCall.answer, ClaimCall.statement, h, ho]

theorem run_lost (h : interval lease = some span) {error : String}
    (ho : call.outcomes 0 = .lost error) : call.run uuids times debug limit lease table =
      (.error (.database "claiming outbox rows" error),
        call.claimed limit table (call.now 0 + span)) := by
  simp [run_eq, readReply, ClaimCall.answer, ClaimCall.statement, ClaimCall.claimed, ClaimCall.keys,
    h, ho]

theorem run_executed (h : interval lease = some span) (ho : call.outcomes 0 = .executed) :
    call.run uuids times debug limit lease table = readReply uuids times debug call
      (decodeRows call.clientError (call.keys limit table) (taken times table (call.now 0 + span)))
      (call.claimed limit table (call.now 0 + span), 1) := by
  simp [run_eq, ClaimCall.answer, ClaimCall.statement, ClaimCall.claimed, ClaimCall.keys, h, ho]

/-! ## Calls that fail -/

/-- What a claim or a mark of it sets. -/
def OutboxRow.delivery (row : OutboxRow) : Int × Status × Int × Option String :=
  (row.availableAt, row.status, row.attempts, row.lastError)

/-- No row's due time, status, count of attempts or error differs. -/
def Untouched (table table' : OutboxTable) : Prop :=
  ∀ key, (table'.rows key).map OutboxRow.delivery = (table.rows key).map OutboxRow.delivery

theorem Untouched.refl (table : OutboxTable) : Untouched table table := fun _ => rfl

theorem untouched_of_nil (h : call.keys limit table = []) (due : Int) :
    Untouched table (call.claimed limit table due) := by
  intro key
  simp [ClaimCall.claimed, OutboxTable.claim, OutboxTable.update, h]

/-- A taken row is a due pending one. -/
theorem row_of_mem_keys {key : RowKey} (h : key ∈ call.keys limit table) :
    ∃ row, table.rows key = some row ∧ row.status = .pending ∧ row.availableAt ≤ call.now 0 :=
  isDue_iff.mp (mem_select h).1

theorem nodup_keys (h : call.scan.Nodup) : (call.keys limit table).Nodup := h.sublist select_sublist

/-- A claim of a row is seen in its due time. -/
theorem not_untouched (hspan : 0 < span) (hk : call.keys limit table ≠ []) {left : OutboxTable}
    (hleft : ∀ key, (left.rows key).map OutboxRow.availableAt =
      ((call.claimed limit table (call.now 0 + span)).rows key).map OutboxRow.availableAt) :
    ¬Untouched table left := by
  intro hu
  obtain ⟨key, hkey⟩ := List.exists_mem_of_ne_nil _ hk
  obtain ⟨row, hrow, _, hdue⟩ := row_of_mem_keys hkey
  have hclaimed : (call.claimed limit table (call.now 0 + span)).rows key =
      some { row with availableAt := call.now 0 + span } :=
    OutboxTable.rows_claim.mpr ⟨row, hrow, if_pos hkey⟩
  have hsame := congrArg (Option.map Prod.fst) (hu key)
  have hmoved := hleft key
  rw [hclaimed] at hmoved
  simp only [Option.map_map, hrow, Option.map_some] at hsame hmoved
  have : call.now 0 + span = row.availableAt := by
    have := hmoved.symm.trans hsame
    simpa [OutboxRow.delivery] using this
  omega

theorem decodeRows_eq_ok {error : String} {keys : List RowKey} {row : RowKey → Option ClaimedRow} :
    (∀ key ∈ keys, (row key).isSome) → decodeRows error keys row = .ok (keys.filterMap row) :=
  fun h => if_pos (List.all_eq_true.mpr h)

theorem decodeRows_eq_error {error : String} {keys : List RowKey}
    {row : RowKey → Option ClaimedRow} (h : ¬∀ key ∈ keys, (row key).isSome) :
    decodeRows error keys row = .error error :=
  if_neg fun hall => h (List.all_eq_true.mp hall)

/-- The rows that a claim returns are as it left them. -/
theorem forall₂_claimed {due : Int}
    (hall : ∀ key ∈ call.keys limit table, (taken times table due key).isSome) :
    List.Forall₂ (Claimed times (call.claimed limit table due) due) (call.keys limit table)
      ((call.keys limit table).filterMap (taken times table due)) := by
  refine (forall₂_filterMap_iff hall).mpr fun key hkey claimed htaken => ?_
  obtain ⟨row, hrow, hclaimed⟩ := Option.bind_eq_some_iff.mp htaken
  obtain ⟨row', hrow', hpending, _⟩ := row_of_mem_keys hkey
  obtain rfl : row = row' := Option.some.inj (hrow.symm.trans hrow')
  exact ⟨_, OutboxTable.rows_claim.mpr ⟨row, hrow, if_pos hkey⟩, hpending, rfl, hclaimed⟩

theorem run_executed_isOk (h : interval lease = some span) (ho : call.outcomes 0 = .executed) :
    (call.run uuids times debug limit lease table).1.isOk = true ↔
      (∀ key ∈ call.keys limit table, (taken times table (call.now 0 + span) key).isSome) ∧
      ∀ i < (((call.keys limit table).filterMap (taken times table (call.now 0 + span))).filter
        (unreadable uuids)).length, call.outcomes (1 + i) = .executed := by
  rw [run_executed h ho]
  by_cases hdecode : ∀ key ∈ call.keys limit table,
      (taken times table (call.now 0 + span) key).isSome
  · rw [decodeRows_eq_ok hdecode, readReply, and_iff_right hdecode]
    exact readResult_isOk_iff
  · rw [decodeRows_eq_error hdecode, readReply]
    exact iff_of_false Bool.false_ne_true fun hall => hdecode hall.1

/-- The first statement is committed, whatever becomes of the call after it. -/
theorem executed_touched (h : interval lease = some span) (hpos : 0 < span)
    (ho : call.outcomes 0 = .executed) (hn : call.scan.Nodup)
    (hk : call.keys limit table ≠ []) :
    ¬Untouched table (call.run uuids times debug limit lease table).2 := by
  rw [run_executed h ho]
  by_cases hdecode : ∀ key ∈ call.keys limit table,
      (taken times table (call.now 0 + span) key).isSome
  · rw [decodeRows_eq_ok hdecode, readReply]
    exact not_untouched hpos hk (readResult_availableAt (nodup_keys hn) (forall₂_claimed hdecode))
  · rw [decodeRows_eq_error hdecode, readReply]
    exact not_untouched hpos hk fun _ => rfl

/-- A failed call has changed no row when the claim itself was refused or took none. A claim that
    took rows is kept when its rows don't decode, when a mark fails, and when its reply is lost. -/
theorem claim_error_untouched_iff (hlease : lease.isZero = false) (hn : call.scan.Nodup) :
    ((call.run uuids times debug limit lease table).1.isOk = false →
      Untouched table (call.run uuids times debug limit lease table).2) ↔
    (∃ error, call.outcomes 0 = .refused error) ∨ call.keys limit table = [] ∨
    ∀ span, interval lease = some span → call.outcomes 0 = .executed ∧
      (∀ key ∈ call.keys limit table, (taken times table (call.now 0 + span) key).isSome) ∧
      ∀ i < (((call.keys limit table).filterMap (taken times table (call.now 0 + span))).filter
        (unreadable uuids)).length, call.outcomes (1 + i) = .executed := by
  cases hspan : interval lease with
  | none =>
    rw [run_unbound hspan]
    exact iff_of_true (fun _ => .refl table) (Or.inr (Or.inr fun _ h => nomatch h))
  | some span =>
    have hpos := interval_pos hspan hlease
    simp only [Option.some.injEq, forall_eq']
    cases ho : call.outcomes 0 with
    | refused error =>
      rw [run_refused hspan ho]
      exact iff_of_true (fun _ => .refl table) (Or.inl ⟨error, rfl⟩)
    | lost error =>
      rw [run_lost hspan ho]
      by_cases hk : call.keys limit table = []
      · exact iff_of_true (fun _ => untouched_of_nil hk _) (Or.inr (Or.inl hk))
      · refine iff_of_false (fun h => not_untouched hpos hk (fun _ => rfl) (h rfl)) ?_
        rintro (⟨_, hrefused⟩ | hnil | ⟨hexecuted, _⟩)
        · cases hrefused
        · exact hk hnil
        · cases hexecuted
    | executed =>
      have hok : (call.run uuids times debug limit lease table).1.isOk = true ↔ _ :=
        run_executed_isOk hspan ho
      constructor
      · intro h
        by_cases hk : call.keys limit table = []
        · exact Or.inr (Or.inl hk)
        · have hnot := (Bool.not_eq_false _).mp fun herror =>
            executed_touched hspan hpos ho hn hk (h herror)
          exact Or.inr (Or.inr ⟨rfl, hok.mp hnot⟩)
      · rintro (⟨_, hrefused⟩ | hnil | ⟨_, hrest⟩) herror
        · cases hrefused
        · rw [hok.mpr (by simp [hnil])] at herror
          cases herror
        · rw [hok.mpr hrest] at herror
          cases herror

/-! ### A row that isn't a record -/

def tableOf (rows : List (RowKey × OutboxRow)) : OutboxTable where
  rows key := rows.lookup key
  stamps _ := 0
  claims _ := []

theorem mem_of_rows_tableOf {rows : List (RowKey × OutboxRow)} {key : RowKey} {row : OutboxRow}
    (h : (tableOf rows).rows key = some row) : (key, row) ∈ rows := by
  obtain ⟨before, after, rfl, _⟩ := List.lookup_eq_some_iff.mp h
  simp

theorem scans_tableOf {rows : List (RowKey × OutboxRow)} (hd : (rows.map (·.1)).Nodup)
    (hordered : (rows.map (·.1)).Pairwise fun key other => key.2 ≤ other.2) :
    Scans (tableOf rows) (rows.map (·.1)) where
  nodup := hd
  ordered := hordered
  complete _ _ hrow := List.mem_map_of_mem (f := (·.1)) (mem_of_rows_tableOf hrow)

/-- Every row is due and none is locked, so the claim takes all of them. -/
theorem keys_tableOf {rows : List (RowKey × OutboxRow)} (hscan : call.scan = rows.map (·.1))
    (hlocked : call.locked = fun _ => false) (hbounded : rows.length ≤ min limit (2 ^ 63 - 1))
    (hdue : ∀ entry ∈ rows, entry.2.status = .pending ∧ entry.2.availableAt ≤ call.now 0) :
    call.keys limit (tableOf rows) = rows.map (·.1) := by
  have hall : ∀ key ∈ rows.map (·.1),
      (isDue (tableOf rows) (call.now 0) key && !call.locked key) = true := by
    intro key hkey
    rw [hlocked, Bool.not_false, Bool.and_true, isDue_iff]
    cases hrow : (tableOf rows).rows key with
    | none =>
      obtain ⟨entry, hentry, rfl⟩ := List.mem_map.mp hkey
      exact absurd (List.lookup_eq_none_iff.mp hrow entry hentry) (by simp)
    | some row => exact ⟨row, rfl, hdue (key, row) (mem_of_rows_tableOf hrow)⟩
  rw [ClaimCall.keys, ClaimCall.select, hscan, List.filter_eq_self.mpr hall,
    List.take_of_length_le (by rwa [List.length_map])]

/-- A row that something other than this crate wrote. -/
def foreignRow (attributes : Option JsonObject) : OutboxRow :=
  let row := OutboxRow.insert .rfc9562 stockCounted 0
  { row with columns := { row.columns with attributes } }

theorem unreadable_foreignRow {due : Int} {claimed : ClaimedRow}
    (h : taken times (tableOf [((0, 8), foreignRow (some ∅))]) due (0, 8) = some claimed) :
    unreadable uuids claimed = true := by
  cases hrecord : record uuids claimed with
  | error error => exact unreadable_of_error hrecord
  | ok r =>
    cases h
    obtain ⟨henvelope, _⟩ := record_eq_ok_iff.mp hrecord
    have hempty : (∅ : JsonObject).toList = [] := Std.ExtTreeMap.toList_eq_nil_iff.mpr rfl
    simp only [Columns.envelope, foreignRow, hempty, stringAttributes, bind, Except.bind] at henvelope
    obtain ⟨text, htime, _⟩ := (Envelope.fromAttributes_eq_ok.mp (mapError_eq_ok.mp henvelope)).time
    rw [Lib.TreeMap.getElem?_setAll _ (by simp), Lib.TreeMap.lookup_eq_none (by simp)] at htime
    simp at htime

/-- Row 8 is claimed at 1; the next statement fails. -/
def halfDone : ClaimCall where
  round := 0
  scan := [(0, 8)]
  locked _ := false
  now _ := 1
  outcomes n := if n = 0 then .executed else .refused "connection closed"
  clientError := ""

theorem keys_halfDone (attributes : Option JsonObject) :
    halfDone.keys 10 (tableOf [((0, 8), foreignRow attributes)]) = [(0, 8)] :=
  keys_tableOf rfl rfl (by decide : 1 ≤ 10) fun entry hentry => by
    obtain rfl := List.mem_singleton.mp hentry
    exact ⟨rfl, Int.zero_le_ofNat 1⟩

/-- A call whose claim is refused. -/
theorem claim_refused_untouched : Untouched (tableOf [((0, 8), foreignRow (some ∅))])
    (({ halfDone with outcomes := fun _ => .refused "connection closed" } : ClaimCall).run .rfc9562
      .utc id 10 (.fromSecs 1 (by decide)) (tableOf [((0, 8), foreignRow (some ∅))])).2 :=
  (claim_error_untouched_iff rfl (show [((0, 8) : RowKey)].Nodup by decide)).mpr
    (Or.inl ⟨_, rfl⟩) rfl

/-- The row isn't a record and its mark fails: an error, and the row is leased. -/
theorem claim_error_touched :
    Scans (tableOf [((0, 8), foreignRow (some ∅))]) halfDone.scan ∧
    (halfDone.run .rfc9562 .utc id 10 (.fromSecs 1 (by decide))
      (tableOf [((0, 8), foreignRow (some ∅))])).1.isOk = false ∧
    ¬Untouched (tableOf [((0, 8), foreignRow (some ∅))])
      (halfDone.run .rfc9562 .utc id 10 (.fromSecs 1 (by decide))
        (tableOf [((0, 8), foreignRow (some ∅))])).2 := by
  have hkeys := keys_halfDone (some ∅)
  refine ⟨scans_tableOf (List.pairwise_singleton _ _) (List.pairwise_singleton _ _), ?_,
    executed_touched rfl (by decide) rfl (List.pairwise_singleton _ _) (by rw [hkeys]; simp)⟩
  refine Bool.eq_false_iff.mpr fun hok => ?_
  obtain ⟨hdecode, hmarks⟩ := (run_executed_isOk rfl rfl).mp hok
  rw [hkeys] at hdecode hmarks
  obtain ⟨claimed, htaken⟩ := Option.isSome_iff_exists.mp (hdecode (0, 8) List.mem_cons_self)
  have hunreadable : unreadable .rfc9562 claimed = true := unreadable_foreignRow htaken
  have hrow : claimed ∈ ([(0, 8)].filterMap (taken .utc _ _)).filter (unreadable .rfc9562) :=
    List.mem_filter.mpr ⟨List.mem_filterMap.mpr ⟨_, List.mem_cons_self, htaken⟩, hunreadable⟩
  cases hmarks 0 (List.length_pos_of_mem hrow)

/-! ## Rows of a call -/

/-- The row's columns and attributes make an envelope, and its `created_at` reads. -/
def readable (uuids : UuidFormat) (times : PgTimes) (key : RowKey) (row : OutboxRow) : Bool :=
  (Timestamp.parse (times.json key.1)).isOk && row.columns.attributes.any fun attributes =>
    (Columns.envelope uuids { row.columns with id := key.2, attributes }).isOk

/-- The record is of the row, leased until `due`. -/
structure IsRecord (uuids : UuidFormat) (times : PgTimes) (due : Int) (key : RowKey)
    (row : OutboxRow) (r : OutboxRecord) : Prop where
  envelope : ∃ attributes, row.columns.attributes = some attributes ∧
    Columns.envelope uuids { row.columns with id := key.2, attributes } = .ok r.envelope
  createdAt : Timestamp.parse (times.json key.1) = .ok r.createdAt
  attempts : row.attempts.toNat = r.attempts
  leasedUntil : Timestamp.parse (times.json due) = .ok r.leasedUntil

/-- The call took the oldest due rows until `due`, and each of them is returned or marked
    failed. -/
structure Accounts (uuids : UuidFormat) (times : PgTimes) (call : ClaimCall) (limit : Nat)
    (due : Int) (table left : OutboxTable) (records : List OutboxRecord) : Prop where
  oldest : OldestDue table (min limit (2 ^ 63 - 1)) (call.now 0) (fun key => call.locked key = true)
    (call.keys limit table)
  others : ∀ key ∉ call.keys limit table, left.rows key = table.rows key
  returned : ∀ key ∈ call.keys limit table, ∀ row, table.rows key = some row →
    readable uuids times key row = true → left.rows key = some { row with availableAt := due }
  failed : ∀ key ∈ call.keys limit table, ∀ row, table.rows key = some row →
    readable uuids times key row = false → ∃ error, left.rows key = some { row with
      availableAt := due, status := .failed, attempts := row.attempts + 1, lastError := some error }
  /-- One record for each of the readable rows, in the order of their ids. -/
  records : List.Forall₂ (fun key r => ∃ row, table.rows key = some row ∧
      IsRecord uuids times due key row r)
    ((call.keys limit table).filter fun key => (table.rows key).any (readable uuids times key))
    records

theorem taken_eq_some {due : Int} {key : RowKey} {claimed : ClaimedRow} :
    taken times table due key = some claimed ↔ ∃ row attributes, table.rows key = some row ∧
      row.columns.attributes = some attributes ∧
      { columns := { row.columns with id := key.2, attributes }
        createdAt := times.json key.1
        attempts := row.attempts
        availableAt := times.json due : ClaimedRow } = claimed := by
  simp [taken, claimedRow, Option.bind_eq_some_iff]

theorem record_taken {due : Int} {key : RowKey} {row : OutboxRow} {claimed : ClaimedRow}
    (htaken : taken times table due key = some claimed) (hrow : table.rows key = some row)
    {r : OutboxRecord} : record uuids claimed = .ok r ↔ IsRecord uuids times due key row r := by
  obtain ⟨row', attributes, hrow', hattributes, rfl⟩ := taken_eq_some.mp htaken
  obtain rfl : row = row' := Option.some.inj (hrow.symm.trans hrow')
  rw [record_eq_ok_iff]
  constructor
  · rintro ⟨henvelope, hcreated, hattempts, hleased⟩
    exact ⟨⟨attributes, hattributes, henvelope⟩, hcreated, hattempts, hleased⟩
  · rintro ⟨⟨attributes', hattributes', henvelope⟩, hcreated, hattempts, hleased⟩
    obtain rfl : attributes = attributes' := Option.some.inj (hattributes.symm.trans hattributes')
    exact ⟨henvelope, hcreated, hattempts, hleased⟩

theorem isOk_iff {ε α : Type} {result : Except ε α} :
    result.isOk = true ↔ ∃ value, result = .ok value := by
  cases result <;> simp [Except.isOk, Except.toBool]

theorem readable_iff {key : RowKey} {row : OutboxRow} {due : Int} {leasedUntil : Timestamp}
    (hdue : Timestamp.parse (times.json due) = .ok leasedUntil) :
    readable uuids times key row = true ↔ ∃ r, IsRecord uuids times due key row r := by
  simp only [readable, Bool.and_eq_true, isOk_iff, Option.any_eq_true]
  constructor
  · rintro ⟨⟨createdAt, hcreated⟩, attributes, hattributes, envelope, henvelope⟩
    exact ⟨⟨envelope, createdAt, row.attempts.toNat, leasedUntil⟩, ⟨attributes, hattributes,
      henvelope⟩, hcreated, rfl, hdue⟩
  · rintro ⟨r, ⟨attributes, hattributes, henvelope⟩, hcreated, _, _⟩
    exact ⟨⟨_, hcreated⟩, attributes, hattributes, _, henvelope⟩

theorem IsRecord.readable {key : RowKey} {row : OutboxRow} {due : Int} {r : OutboxRecord}
    (h : IsRecord uuids times due key row r) : readable uuids times key row = true :=
  (readable_iff h.leasedUntil).mpr ⟨r, h⟩

theorem toOption_eq_some {ε α : Type} {result : Except ε α} {value : α} :
    result.toOption = some value ↔ result = .ok value := by
  cases result <;> simp [Except.toOption]

/-- A taken row is a record when it is readable, and its lease end reads. -/
theorem record_isSome {due : Int} {key : RowKey} {row : OutboxRow} {claimed : ClaimedRow}
    (htaken : taken times table due key = some claimed) (hrow : table.rows key = some row)
    (hdue : readable uuids times key row = true →
      (Timestamp.parse (times.json due)).isOk = true) :
    (record uuids claimed).toOption.isSome = readable uuids times key row := by
  rw [Bool.eq_iff_iff]
  constructor
  · intro h
    obtain ⟨r, hr⟩ := Option.isSome_iff_exists.mp h
    exact ((record_taken htaken hrow).mp (toOption_eq_some.mp hr)).readable
  · intro h
    obtain ⟨leasedUntil, hleased⟩ := isOk_iff.mp (hdue h)
    obtain ⟨r, hr⟩ := (readable_iff hleased).mp h
    rw [(record_taken htaken hrow).mpr hr]
    rfl

theorem accounts_readResult (hall : ∀ n, call.outcomes n = .executed)
    (hs : Scans table call.scan) {due : Int}
    (hdecode : ∀ key ∈ call.keys limit table, (taken times table due key).isSome)
    (hdue : ∀ key ∈ call.keys limit table, ∀ row, table.rows key = some row →
      readable uuids times key row = true → (Timestamp.parse (times.json due)).isOk = true) :
    Accounts uuids times call limit due table
      (readResult uuids times debug call ((call.keys limit table).filterMap (taken times table due))
        (call.claimed limit table due, 1)).2.1
      (((call.keys limit table).filterMap (taken times table due)).filterMap fun row =>
        (record uuids row).toOption) := by
  obtain ⟨-, hothers, hrows⟩ := readResult_of_executed uuids debug 1 hall (nodup_keys hs.nodup)
    (forall₂_claimed hdecode)
  generalize (readResult uuids times debug call
    ((call.keys limit table).filterMap (taken times table due))
    (call.claimed limit table due, 1)).2.1 = left at hothers hrows ⊢
  have hclaimed : ∀ key ∈ call.keys limit table, ∀ row, table.rows key = some row →
      (call.claimed limit table due).rows key = some { row with availableAt := due } :=
    fun key hkey row hrow => OutboxTable.rows_claim.mpr ⟨row, hrow, if_pos hkey⟩
  have hleft : ∀ key ∈ call.keys limit table, ∀ row, table.rows key = some row →
      ∃ claimed, taken times table due key = some claimed ∧
        left.rows key = some (afterRead uuids debug claimed { row with availableAt := due }) := by
    intro key hkey row hrow
    obtain ⟨claimed, htaken⟩ := Option.isSome_iff_exists.mp (hdecode key hkey)
    obtain ⟨row', hrow', hleft⟩ := (forall₂_filterMap_iff hdecode).mp hrows key hkey claimed htaken
    rw [hclaimed key hkey row hrow, Option.some.injEq] at hrow'
    exact ⟨claimed, htaken, hrow' ▸ hleft⟩
  refine ⟨hs.oldestDue, fun key hkey => ?_, fun key hkey row hrow hreadable => ?_,
    fun key hkey row hrow hreadable => ?_, ?_⟩
  · rw [hothers key hkey, ClaimCall.claimed, OutboxTable.claim, OutboxTable.update]
    simp [hkey]
  · obtain ⟨claimed, htaken, hleft⟩ := hleft key hkey row hrow
    have hsome := record_isSome htaken hrow (hdue key hkey row hrow)
    rw [hreadable] at hsome
    obtain ⟨r, hr⟩ := Option.isSome_iff_exists.mp hsome
    rw [hleft, afterRead, toOption_eq_some.mp hr]
  · obtain ⟨claimed, htaken, hleft⟩ := hleft key hkey row hrow
    have hsome := record_isSome htaken hrow (hdue key hkey row hrow)
    cases hr : record uuids claimed with
    | ok r =>
      rw [hr, hreadable] at hsome
      cases hsome
    | error error =>
      rw [hleft, afterRead, hr]
      exact ⟨_, rfl⟩
  · have hrecords : List.Forall₂ (fun key claimed => key ∈ call.keys limit table ∧
        taken times table due key = some claimed) (call.keys limit table) _ :=
      (forall₂_filterMap_iff hdecode).mpr fun key hkey _ htaken => ⟨hkey, htaken⟩
    refine (forall₂_filter hrecords fun key claimed hclaim => ?_).imp fun key r hclaim => ?_
    · obtain ⟨hkey, htaken⟩ := hclaim
      obtain ⟨row, hrow, _⟩ := row_of_mem_keys hkey
      rw [record_isSome htaken hrow (hdue key hkey row hrow), hrow, Option.any_some]
    · obtain ⟨claimed, ⟨hkey, htaken⟩, hr⟩ := hclaim
      obtain ⟨row, hrow, _⟩ := row_of_mem_keys hkey
      exact ⟨row, hrow, (record_taken htaken hrow).mp (toOption_eq_some.mp hr)⟩

theorem taken_isSome {due : Int} {key : RowKey} {row : OutboxRow}
    (hrow : table.rows key = some row) :
    (taken times table due key).isSome = true ↔ row.columns.attributes ≠ none := by
  simp [taken, hrow, claimedRow, Option.isSome_iff_ne_none]

/-- A call whose statements are all executed takes the oldest due rows and accounts for each of them
    when each one's attributes are an object. One that isn't fails the call, after the claim was
    committed. -/
theorem claim_accounts_iff (hall : ∀ n, call.outcomes n = .executed) (hs : Scans table call.scan) :
    (∃ span records, interval lease = some span ∧
      (call.run uuids times debug limit lease table).1 = .ok records ∧
      Accounts uuids times call limit (call.now 0 + span) table
        (call.run uuids times debug limit lease table).2 records) ↔
    ∃ span, interval lease = some span ∧ ∀ key ∈ call.keys limit table, ∀ row,
      table.rows key = some row → row.columns.attributes ≠ none ∧
        (readable uuids times key row = true →
          (Timestamp.parse (times.json (call.now 0 + span))).isOk = true) := by
  constructor
  · rintro ⟨span, records, hspan, hok, haccounts⟩
    refine ⟨span, hspan, fun key hkey row hrow => ⟨?_, fun hreadable => ?_⟩⟩
    · rw [run_executed hspan (hall 0)] at hok
      by_cases hdecode : ∀ key ∈ call.keys limit table,
          (taken times table (call.now 0 + span) key).isSome
      · exact (taken_isSome hrow).mp (hdecode key hkey)
      · rw [decodeRows_eq_error hdecode, readReply] at hok
        cases hok
    · have hmem : key ∈ (call.keys limit table).filter fun key =>
          (table.rows key).any (readable uuids times key) :=
        List.mem_filter.mpr ⟨hkey, by rw [hrow, Option.any_some, hreadable]⟩
      obtain ⟨r, _, _, _, hr⟩ := forall₂_mem_left haccounts.records hmem
      exact isOk_iff.mpr ⟨_, hr.leasedUntil⟩
  · rintro ⟨span, hspan, htaken⟩
    have hdecode : ∀ key ∈ call.keys limit table,
        (taken times table (call.now 0 + span) key).isSome := by
      intro key hkey
      obtain ⟨row, hrow, _⟩ := row_of_mem_keys hkey
      exact (taken_isSome hrow).mpr (htaken key hkey row hrow).1
    have hresult := (readResult_of_executed uuids debug 1 hall (nodup_keys hs.nodup)
      (forall₂_claimed hdecode)).1
    refine ⟨span, ?_⟩
    rw [run_executed hspan (hall 0), decodeRows_eq_ok hdecode, readReply]
    exact ⟨_, hspan, hresult, accounts_readResult hall hs hdecode
      fun key hkey row hrow => (htaken key hkey row hrow).2⟩

/-! ### A readable row next to another -/

/-- Row 7 is what `insert` wrote, row 8 isn't. -/
def mixedRows (attributes : Option JsonObject) : OutboxTable :=
  tableOf [((0, 7), .insert .rfc9562 stockCounted 0), ((0, 8), foreignRow attributes)]

/-- Both rows are claimed at 1. -/
def allDone : ClaimCall where
  round := 0
  scan := [(0, 7), (0, 8)]
  locked _ := false
  now _ := 1
  outcomes _ := .executed
  clientError := "error occurred while decoding a column"

theorem scans_mixedRows (attributes : Option JsonObject) :
    Scans (mixedRows attributes) allDone.scan :=
  scans_tableOf (by simp) (by simp)

theorem keys_allDone (attributes : Option JsonObject) :
    allDone.keys 10 (mixedRows attributes) = [(0, 7), (0, 8)] :=
  keys_tableOf rfl rfl (by decide : 2 ≤ 10) fun entry hentry => by
    rcases List.mem_pair.mp hentry with rfl | rfl
    · exact ⟨rfl, Int.zero_le_ofNat 1⟩
    · exact ⟨rfl, Int.zero_le_ofNat 1⟩

theorem parse_utc {time : Int} (h : InYears time) :
    (Timestamp.parse (PgTimes.utc.json time)).isOk = true :=
  isOk_iff.mpr (PgTimes.utc.parse_json time h (by rwa [PgTimes.utc, Int.add_zero]))

theorem readable_stockCounted :
    readable .rfc9562 .utc (0, 7) (.insert .rfc9562 stockCounted 0) = true := by
  have hrecord : record .rfc9562 ⟨columns .rfc9562 stockCounted,
      Timestamp.toText (.fromUnixNanos 8), 0, Timestamp.toText (.fromUnixNanos 9)⟩ = _ :=
    record_columns .rfc9562 stockCounted rfl (Timestamp.parse_toText _) (Timestamp.parse_toText _)
  obtain ⟨henvelope, _⟩ := record_eq_ok_iff.mp hrecord
  rw [readable, parse_utc (by decide), Bool.true_and]
  exact isOk_iff.mpr ⟨_, henvelope⟩

/-- Row 8's attributes are an object: row 7 is returned, row 8 marked failed. -/
theorem claim_accounts_mixedRows : ∃ span records, interval (.fromSecs 1 (by decide)) = some span ∧
    (allDone.run .rfc9562 .utc id 10 (.fromSecs 1 (by decide)) (mixedRows (some ∅))).1 =
      .ok records ∧
    Accounts .rfc9562 .utc allDone 10 (allDone.now 0 + span) (mixedRows (some ∅))
      (allDone.run .rfc9562 .utc id 10 (.fromSecs 1 (by decide)) (mixedRows (some ∅))).2
      records := by
  refine (claim_accounts_iff (fun _ => rfl) (scans_mixedRows _)).mpr
    ⟨1000000, rfl, fun key _ row hrow => ⟨?_, fun _ => parse_utc (by decide)⟩⟩
  rcases List.mem_pair.mp (mem_of_rows_tableOf hrow) with h | h
  · cases h
    exact Option.some_ne_none _
  · cases h
    exact Option.some_ne_none _

/-- Row 8's attributes are no object: the call fails, and row 7 isn't returned. -/
theorem claim_not_accounts :
    Scans (mixedRows none) allDone.scan ∧
    (∀ n, allDone.outcomes n = .executed) ∧ InYears (allDone.now 0 + 1000000) ∧
    allDone.keys 10 (mixedRows none) = [(0, 7), (0, 8)] ∧
    readable .rfc9562 .utc (0, 7) (.insert .rfc9562 stockCounted 0) = true ∧
    ¬∃ span records, interval (.fromSecs 1 (by decide)) = some span ∧
      (allDone.run .rfc9562 .utc id 10 (.fromSecs 1 (by decide)) (mixedRows none)).1 =
        .ok records ∧
      Accounts .rfc9562 .utc allDone 10 (allDone.now 0 + span) (mixedRows none)
        (allDone.run .rfc9562 .utc id 10 (.fromSecs 1 (by decide)) (mixedRows none)).2 records := by
  refine ⟨scans_mixedRows none, fun _ => rfl, by decide, keys_allDone none, readable_stockCounted,
    ?_⟩
  rintro ⟨span, records, hspan, hok, _⟩
  have hdecode : ¬∀ key ∈ allDone.keys 10 (mixedRows none),
      (taken .utc (mixedRows none) (allDone.now 0 + span) key).isSome = true := by
    intro h
    rw [keys_allDone] at h
    cases h (0, 8) (by decide)
  rw [run_executed hspan rfl, decodeRows_eq_error hdecode, readReply] at hok
  cases hok

end Call

end SisaMessaging.Postgres
