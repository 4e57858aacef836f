/-
  Whole runs of dispatchers over an outbox whose rows were all inserted by transactions.

  `Sound` is the invariant over the table, the broker's log and what each round holds: every row is
  an inserted envelope with no more failed attempts than refused publishes, every row a round holds
  reads back as the record of its envelope, and what the round takes for published or refused is in
  the log. All of it only grows (`Later`), so each step keeps it for the rows it leaves.
-/
import SisaMessaging.Runtime.Fencing

namespace SisaMessaging.Runtime

open SisaMessaging.Core SisaMessaging.Postgres SisaMessaging.Lib
open SisaMessaging.Lib.System (Keeps Label Reach Step update_eq_some)

variable {uuids : UuidFormat} {times : PgTimes} {debug : String → String}

/-! ## What the log says of a row -/

/-- The record is of the row with this key. -/
def OfRow (times : PgTimes) (key : RowKey) (r : OutboxRecord) : Prop :=
  parseTime (times.json key.1) = some r.createdAt ∧ r.envelope.id.uuid = key.2

instance (times : PgTimes) (key : RowKey) (r : OutboxRecord) : Decidable (OfRow times key r) :=
  inferInstanceAs (Decidable (_ ∧ _))

def PublishReply.isRefused : PublishReply → Bool
  | .refused _ => true
  | _ => false

namespace OutboxState

/-- How many publishes of the row returned an error. -/
def refusals (w : OutboxState) (times : PgTimes) (key : RowKey) : Nat :=
  w.publications.countP fun publication =>
    PublishReply.isRefused publication.reply && decide (OfRow times key publication.record)

/-- The broker accepted a publish of the row's envelope. -/
def Accepted (w : OutboxState) (times : PgTimes) (key : RowKey) : Prop :=
  ∃ publication ∈ w.publications, publication.reply = .accepted ∧
    OfRow times key publication.record ∧ w.inserted key = some publication.record.envelope

/-- The published envelope is the one that a committed transaction inserted as a row. -/
def Inserted (w : OutboxState) (times : PgTimes) (r : OutboxRecord) : Prop :=
  ∃ key, w.table.rows key ≠ none ∧ w.inserted key = some r.envelope ∧ OfRow times key r

/-- No rows, nothing published, no transaction, and no round has started. -/
structure Empty (w : OutboxState) : Prop where
  unclaimed : w.Unclaimed
  rows : w.table.rows = fun _ => none
  publications : w.publications = []
  transactions : w.transactions = fun _ => none
  inserted : w.inserted = fun _ => none

/-- What holds of the outbox at any time. -/
structure Law (w : OutboxState) (times : PgTimes) : Prop where
  /-- Only envelopes of committed rows are published, each as it was inserted. -/
  published : ∀ publication ∈ w.publications, w.Inserted times publication.record
  /-- A row is dispatched only if the broker accepted it. -/
  dispatched : ∀ key row, w.table.rows key = some row → row.status = .dispatched →
    w.Accepted times key
  /-- A row has no more failed attempts than refused publishes. -/
  attempts : ∀ key row, w.table.rows key = some row → row.attempts ≤ w.refusals times key

end OutboxState

/-- Years 0001 to 9999, in UTC and as the session writes them. -/
def InRange (times : PgTimes) (time : Int) : Prop := InYears time ∧ InYears (time + times.zone time)

/-- Transactions start and leases end in years 0001 to 9999, and only `insert` writes rows. -/
def Supported (times : PgTimes) :
    OutboxPool → Label Nat DispatchOp DispatchRet DispatchSettings OutboxAction → Prop
  | _, .exec _ (.claimDue _ _) reply => ∀ rows, reply = .ok rows → ∀ row ∈ rows,
      ∃ leasedUntil, row.availableAt = times.json leasedUntil ∧ InRange times leasedUntil
  | _, .env (.begin _ now) => InRange times now
  | _, .env (.write _ _ _) => False
  | _, _ => True

/-! ## What only grows -/

structure Later (w w' : OutboxState) : Prop where
  rows : ∀ key, w.table.rows key ≠ none → w'.table.rows key ≠ none
  inserted : ∀ key, w.table.rows key ≠ none → w'.inserted key = w.inserted key
  publications : ∃ more, w'.publications = w.publications ++ more

namespace Later

variable {w w' : OutboxState}

/-- No publish, and no commit. -/
theorem of_rows (hrows : ∀ key, w.table.rows key ≠ none → w'.table.rows key ≠ none)
    (hinserted : w'.inserted = w.inserted) (hpublications : w'.publications = w.publications) :
    Later w w' where
  rows := hrows
  inserted key _ := congrFun hinserted key
  publications := ⟨[], by rw [hpublications, List.append_nil]⟩

theorem refl (w : OutboxState) : Later w w := of_rows (fun _ h => h) rfl rfl

theorem mem (h : Later w w') {p : Publication} (hp : p ∈ w.publications) : p ∈ w'.publications := by
  obtain ⟨more, he⟩ := h.publications
  rw [he]
  exact List.mem_append_left _ hp

theorem refusals (h : Later w w') (key : RowKey) : w.refusals times key ≤ w'.refusals times key := by
  obtain ⟨more, he⟩ := h.publications
  rw [OutboxState.refusals, OutboxState.refusals, he, List.countP_append]
  exact Nat.le_add_right ..

theorem accepted (h : Later w w') {key : RowKey} (hr : w.table.rows key ≠ none)
    (ha : w.Accepted times key) : w'.Accepted times key := by
  obtain ⟨p, hp, hreply, hof, hi⟩ := ha
  exact ⟨p, h.mem hp, hreply, hof, (h.inserted key hr).trans hi⟩

theorem isInserted (h : Later w w') {r : OutboxRecord} (hr : w.Inserted times r) :
    w'.Inserted times r := by
  obtain ⟨key, hrow, hi, hof⟩ := hr
  exact ⟨key, h.rows key hrow, (h.inserted key hrow).trans hi, hof⟩

end Later

/-- A row that `insert` wrote. -/
structure RowSound (uuids : UuidFormat) (times : PgTimes) (w : OutboxState) (key : RowKey)
    (row : Postgres.OutboxRow) : Prop where
  envelope : ∃ envelope, w.inserted key = some envelope ∧ key.2 = envelope.id.uuid ∧
    row.columns = (Postgres.OutboxRow.insert uuids envelope key.1).columns
  created : InRange times key.1
  nonneg : 0 ≤ row.attempts
  refusals : row.attempts ≤ w.refusals times key
  dispatched : row.status = .dispatched → w.Accepted times key

/-- A row that a round claimed: the record of its envelope, whatever happens to the row. -/
structure Claimed (uuids : UuidFormat) (times : PgTimes) (w : OutboxState) (claimed : ClaimedRow)
    (key : RowKey) (envelope : Envelope) (leasedUntil : Int) : Prop where
  row : w.table.rows key ≠ none
  inserted : w.inserted key = some envelope
  id : key.2 = envelope.id.uuid
  columns : claimed.columns = columns uuids envelope
  mark : claimed.mark = markAt times key leasedUntil
  created : InRange times key.1
  leased : InRange times leasedUntil
  nonneg : 0 ≤ claimed.attempts
  refusals : claimed.attempts ≤ w.refusals times key

/-- What a round holds, and what it takes for published. -/
def PhaseSound (uuids : UuidFormat) (times : PgTimes) (w : OutboxState) : RoundPhase → Prop
  | .fresh => True
  | .holding unmarked accepted refused =>
    (∀ claimed ∈ unmarked, ∃ key envelope leasedUntil,
      Claimed uuids times w claimed key envelope leasedUntil) ∧
    (∀ r ∈ accepted, ∃ p ∈ w.publications, p.reply = .accepted ∧ p.record = r) ∧
    ∀ r, refused = some r → ∀ claimed ∈ unmarked, record uuids claimed = .ok r →
      ∀ key leasedUntil, claimed.mark = markAt times key leasedUntil →
        r.attempts + 1 ≤ w.refusals times key

variable {w w' : OutboxState} {key : RowKey} {row row' : Postgres.OutboxRow} {claimed : ClaimedRow}
  {envelope : Envelope} {leasedUntil : Int}

/-- A row that keeps its envelope, with attempts that the log accounts for. -/
theorem RowSound.change (h : RowSound uuids times w key row) (hl : Later w w')
    (hr : w.table.rows key = some row) (hcolumns : row'.columns = row.columns)
    (hattempts : row'.attempts = row.attempts ∨
      row'.attempts = row.attempts + 1 ∧ row.attempts + 1 ≤ w'.refusals times key)
    (hstatus : row'.status = .dispatched → row.status = .dispatched ∨ w'.Accepted times key) :
    RowSound uuids times w' key row' := by
  obtain ⟨envelope, hi, hid, hc⟩ := h.envelope
  have hcount : w.refusals times key ≤ w'.refusals times key := hl.refusals key
  have hnonneg := h.nonneg
  have hle := h.refusals
  refine ⟨⟨envelope, ?_, hid, hcolumns.trans hc⟩, h.created, by omega, by omega, ?_⟩
  · rw [hl.inserted key (by simp [hr]), hi]
  · intro hd
    rcases hstatus hd with hd | ha
    · exact hl.accepted (by simp [hr]) (h.dispatched hd)
    · exact ha

theorem Claimed.later (h : Claimed uuids times w claimed key envelope leasedUntil)
    (hl : Later w w') : Claimed uuids times w' claimed key envelope leasedUntil where
  row := hl.rows key h.row
  inserted := (hl.inserted key h.row).trans h.inserted
  id := h.id
  columns := h.columns
  mark := h.mark
  created := h.created
  leased := h.leased
  nonneg := h.nonneg
  refusals := h.refusals.trans (Int.ofNat_le.mpr (hl.refusals key))

theorem PhaseSound.later {g : RoundPhase} (h : PhaseSound uuids times w g) (hl : Later w w') :
    PhaseSound uuids times w' g := by
  cases g with
  | fresh => trivial
  | holding unmarked accepted refused =>
    obtain ⟨hu, ha, hr⟩ := h
    refine ⟨?_, ?_, fun r he claimed hc hrecord key leasedUntil hm =>
      (hr r he claimed hc hrecord key leasedUntil hm).trans (hl.refusals key)⟩
    · intro claimed hc
      obtain ⟨key, envelope, leasedUntil, hclaimed⟩ := hu claimed hc
      exact ⟨key, envelope, leasedUntil, hclaimed.later hl⟩
    · intro r hm
      obtain ⟨p, hp, hrest⟩ := ha r hm
      exact ⟨p, hl.mem hp, hrest⟩

/-- A claimed row is the record of the envelope that was inserted. -/
theorem Claimed.record (h : Claimed uuids times w claimed key envelope leasedUntil) :
    ∃ r, record uuids claimed = .ok r ∧ r.envelope = envelope ∧ OfRow times key r ∧
      (r.attempts : Int) = claimed.attempts := by
  obtain ⟨createdAt, hcreated⟩ := times.parse_json key.1 h.created.1 h.created.2
  obtain ⟨leased, hleased⟩ := times.parse_json leasedUntil h.leased.1 h.leased.2
  obtain ⟨htext, _, hdue⟩ : claimed.createdAt = times.json key.1 ∧
      claimed.columns.id = key.2 ∧ claimed.availableAt = times.json leasedUntil := by
    simpa [ClaimedRow.mark, markAt] using h.mark
  rw [← htext] at hcreated
  rw [← hdue] at hleased
  refine ⟨_, record_columns uuids envelope h.columns hcreated hleased, rfl, ⟨?_, h.id.symm⟩, ?_⟩
  · rw [← htext]
    exact Timestamp.parse_eq_ok.mp hcreated
  · exact Int.toNat_of_nonneg h.nonneg

theorem claimedRow_insert {now : Int}
    (hcolumns : row.columns = (Postgres.OutboxRow.insert uuids envelope now).columns)
    (hid : key.2 = envelope.id.uuid) (h : claimedRow times key row = some claimed) :
    claimed.columns = columns uuids envelope := by
  obtain ⟨attributes, ha, rfl⟩ := Option.map_eq_some_iff.mp h
  rw [hcolumns] at ha ⊢
  cases ha
  rw [hid]
  rfl

/-! ## The invariant -/

structure Sound (uuids : UuidFormat) (times : PgTimes) (w : OutboxState)
    (γ : Nat → Option (DispatchSettings × RoundPhase)) : Prop where
  fenced : Fenced times w γ
  transactions : ∀ t transaction, w.transactions t = some transaction →
    InRange times transaction.start
  rows : ∀ key row, w.table.rows key = some row → RowSound uuids times w key row
  published : ∀ publication ∈ w.publications, w.Inserted times publication.record
  phases : ∀ i settings g, γ i = some (settings, g) → PhaseSound uuids times w g

namespace Sound

variable {γ γ' : Nat → Option (DispatchSettings × RoundPhase)} {i : Nat}
  {settings : DispatchSettings} {g g' : RoundPhase}

/-- A step of round `i`, given what it does to the rows. -/
theorem next (h : Sound uuids times w γ)
    (hfenced : Fenced times w' (Function.update γ i (some (settings, g')))) (hl : Later w w')
    (htransactions : w'.transactions = w.transactions)
    (hrows : ∀ key row, w'.table.rows key = some row → RowSound uuids times w' key row)
    (hpublished : ∀ p ∈ w'.publications, p ∈ w.publications ∨ w'.Inserted times p.record)
    (hg : PhaseSound uuids times w' g') :
    Sound uuids times w' (Function.update γ i (some (settings, g'))) := by
  refine ⟨hfenced, by rw [htransactions]; exact h.transactions, hrows, ?_, ?_⟩
  · intro p hp
    rcases hpublished p hp with hp | hi
    · exact hl.isInserted (h.published p hp)
    · exact hi
  · intro k settings' g'' hk
    rcases update_eq_some.mp hk with ⟨rfl, he⟩ | ⟨_, hk⟩
    · cases he
      exact hg
    · exact (h.phases k settings' g'' hk).later hl

/-- The table a statement leaves, given what it does to each row. -/
theorem rows_of (h : Sound uuids times w γ) (hl : Later w w')
    (hrows : ∀ key row', w'.table.rows key = some row' → ∃ row, w.table.rows key = some row ∧
      row'.columns = row.columns ∧
      (row'.attempts = row.attempts ∨
        row'.attempts = row.attempts + 1 ∧ row.attempts + 1 ≤ w'.refusals times key) ∧
      (row'.status = .dispatched → row.status = .dispatched ∨ w'.Accepted times key)) :
    ∀ key row, w'.table.rows key = some row → RowSound uuids times w' key row := by
  intro key row' hr'
  obtain ⟨row, hr, hcolumns, hattempts, hstatus⟩ := hrows key row' hr'
  exact (h.rows key row hr).change hl hr hcolumns hattempts hstatus

theorem claim (h : Sound uuids times w γ) (hγ : γ i = some (settings, .fresh)) {limit : Nat}
    {reply : Except String (List ClaimedRow)}
    (he : w.Claims times i limit settings.lease reply w')
    (hyears : ∀ rows, reply = .ok rows → ∀ row ∈ rows,
      ∃ leasedUntil, row.availableAt = times.json leasedUntil ∧ InRange times leasedUntil)
    {rows : List ClaimedRow} (hrows : reply = .ok rows ∨ rows = []) :
    Sound uuids times w' (Function.update γ i (some (settings, .holding rows [] none))) := by
  have hfenced := (h.fenced.claim uuids hγ he).2 rows hrows
  rcases he with ⟨span, now, keys, table, hspan, hclaim, rfl, hreply⟩ | ⟨⟨error, rfl⟩, rfl⟩
  · have hrow : ∀ key row', table.rows key = some row' → ∃ row, w.table.rows key = some row ∧
        row'.columns = row.columns ∧ row'.attempts = row.attempts ∧ row'.status = row.status := by
      intro key row' hr'
      rw [hclaim.eq] at hr'
      obtain ⟨row, hr, rfl⟩ := OutboxTable.rows_claim.mp hr'
      refine ⟨row, hr, ?_⟩
      split
      · exact ⟨rfl, rfl, rfl⟩
      · exact ⟨rfl, rfl, rfl⟩
    have hl : Later w { w with table } := by
      refine .of_rows (fun key hr => ?_) rfl rfl
      obtain ⟨row, hr⟩ := Option.ne_none_iff_exists'.mp hr
      simp [hclaim.eq, OutboxTable.claim, OutboxTable.update, hr]
    refine h.next hfenced hl rfl (h.rows_of hl ?_) (fun p hp => Or.inl hp) ⟨?_, by simp, by simp⟩
    · intro key row' hr'
      obtain ⟨row, hr, hcolumns, hattempts, hstatus⟩ := hrow key row' hr'
      exact ⟨row, hr, hcolumns, Or.inl hattempts, fun hd => Or.inl (hstatus ▸ hd)⟩
    · intro claimed hc
      rcases hrows with rfl | rfl
      · obtain ⟨key, _, hclaimed⟩ := forall₂_mem_right (hreply _ rfl) hc
        obtain ⟨row', hr', hclaimed⟩ := Option.bind_eq_some_iff.mp hclaimed
        obtain ⟨row, hr, hcolumns, hattempts, _⟩ := hrow key row' hr'
        have hsound := h.rows key row hr
        obtain ⟨envelope, hi, hid, hec⟩ := hsound.envelope
        obtain ⟨hmark, hca⟩ := claimedRow_eq hclaimed
        obtain ⟨leasedUntil, hleased, hrange⟩ := hyears _ rfl claimed hc
        have hdue : claimed.availableAt = times.json row'.availableAt :=
          congrArg Mark.leasedUntil hmark
        have htoken : times.cast claimed.availableAt = some row'.availableAt := by
          rw [hdue, times.cast_json]
        rw [hleased, times.cast_json, Option.some.injEq] at htoken
        refine ⟨key, envelope, leasedUntil, ⟨by simp [hr'], hi, hid, ?_, htoken ▸ hmark,
          hsound.created, hrange, ?_, ?_⟩⟩
        · exact claimedRow_insert (hcolumns.trans hec) hid hclaimed
        · rw [hca, hattempts]
          exact hsound.nonneg
        · rw [hca, hattempts]
          exact hsound.refusals
      · exact absurd hc List.not_mem_nil
  · refine h.next hfenced (.of_rows (fun _ h => h) rfl rfl) rfl h.rows
      (fun p hp => Or.inl hp) ⟨?_, by simp, by simp⟩
    rcases hrows with hrows | rfl
    · cases hrows
    · simp

/-- A mark sets the rows it finds as the log allows. -/
theorem mark (h : Sound uuids times w γ) {left : List ClaimedRow}
    {accepted : List OutboxRecord} {op : DispatchOp} {reply : Except String Unit}
    (hfenced : Fenced times w' (Function.update γ i (some (settings, .holding left accepted none))))
    (he : w.Marks times op reply w')
    (hset : ∀ set now, op.sets = some set → ∀ mark ∈ op.marks, ∀ key row,
      w.table.rows key = some row → mark.hits times key row = true →
      (set now row).columns = row.columns ∧
      ((set now row).attempts = row.attempts ∨
        (set now row).attempts = row.attempts + 1 ∧ row.attempts + 1 ≤ w.refusals times key) ∧
      ((set now row).status = .dispatched → row.status = .dispatched ∨ w.Accepted times key))
    (hg : PhaseSound uuids times w (.holding left accepted none)) :
    Sound uuids times w' (Function.update γ i (some (settings, .holding left accepted none))) := by
  rcases he with ⟨set, now, table, hsets, hmark, rfl⟩ | ⟨_, rfl⟩
  · have hl : Later w { w with table } := by
      refine .of_rows (fun key hr => ?_) rfl rfl
      obtain ⟨row, hr⟩ := Option.ne_none_iff_exists'.mp hr
      simp [hmark.eq, OutboxTable.update, hr]
    refine h.next hfenced hl rfl (h.rows_of hl ?_) (fun p hp => Or.inl hp) (hg.later hl)
    intro key row' hr'
    dsimp only at hr'
    rw [hmark.eq] at hr'
    obtain ⟨row, hr, rfl⟩ := OutboxTable.rows_update.mp hr'
    refine ⟨row, hr, ?_⟩
    split
    · rename_i hany
      obtain ⟨mark, hm, hhit⟩ := List.any_eq_true.mp hany
      obtain ⟨hcolumns, hattempts, hstatus⟩ := hset set now hsets mark hm key row hr hhit
      exact ⟨hcolumns, hattempts, fun hd => (hstatus hd).imp_right fun ha => ha⟩
    · exact ⟨rfl, Or.inl rfl, fun hd => Or.inl hd⟩
  · exact h.next hfenced (.of_rows (fun _ h => h) rfl rfl) rfl h.rows
      (fun p hp => Or.inl hp) hg

/-- What a mark of a record that a round holds finds. -/
theorem hit (h : Sound uuids times w γ) {unmarked : List ClaimedRow}
    {accepted : List OutboxRecord} {refused : Option OutboxRecord}
    (hγ : γ i = some (settings, .holding unmarked accepted refused)) {r : OutboxRecord}
    (hu : Unmarked uuids unmarked r) (hr : w.table.rows key = some row)
    (hhit : (markOf r).hits times key row = true) :
    OfRow times key r ∧ w.inserted key = some r.envelope ∧ row.attempts = r.attempts ∧
      ∀ r', refused = some r' → r' = r → row.attempts + 1 ≤ w.refusals times key := by
  obtain ⟨claimed, hc, hrecord⟩ := hu
  obtain ⟨hunmarked, _, hrefused⟩ := h.phases i settings _ hγ
  obtain ⟨key', envelope, leasedUntil, hclaimed⟩ := hunmarked claimed hc
  have hfinds : Finds uuids (markOf r) claimed := Or.inr ⟨r, hrecord, rfl⟩
  obtain rfl := (hfinds.reads hclaimed.mark).1 key (Mark.hits_iff.mp hhit).2.1
  obtain ⟨r', hr', henvelope, hof, hattempts⟩ := hclaimed.record
  rw [hrecord] at hr'
  cases hr'
  have hrow := ((h.fenced.held i settings _ _ _ hγ claimed hc).hit hfinds hr hhit).2.trans
    hattempts.symm
  refine ⟨hof, henvelope ▸ hclaimed.inserted, hrow, ?_⟩
  rintro r' he rfl
  have := hrefused r' he claimed hc hrecord key leasedUntil hclaimed.mark
  omega

/-- The rows that a mark leaves a round are sound. -/
theorem without (h : Sound uuids times w γ) {unmarked : List ClaimedRow}
    {accepted : List OutboxRecord} {refused : Option OutboxRecord}
    (hγ : γ i = some (settings, .holding unmarked accepted refused)) (mark : Mark) :
    PhaseSound uuids times w (.holding (RoundPhase.without times mark unmarked) accepted none) := by
  obtain ⟨hunmarked, haccepted, _⟩ := h.phases i settings _ hγ
  exact ⟨fun claimed hc => hunmarked claimed (mem_without.mp hc).1, haccepted, by simp⟩

/-- A refused record goes back, or its row is marked failed. -/
theorem putBack (h : Sound uuids times w γ) {unmarked : List ClaimedRow}
    {accepted : List OutboxRecord} {r : OutboxRecord}
    (hγ : γ i = some (settings, .holding unmarked accepted (some r)))
    (hu : Unmarked uuids unmarked r) {op : DispatchOp} (hop : op.marks = [markOf r])
    (hset : ∀ set now row, op.sets = some set → (set now row).columns = row.columns ∧
      (set now row).attempts = row.attempts + 1 ∧
      ((set now row).status = .dispatched → row.status = .dispatched))
    {reply : Except String Unit} (he : w.Marks times op reply w')
    (hfenced : Fenced times w' (Function.update γ i
      (some (settings, .holding (RoundPhase.without times (markOf r) unmarked) accepted none)))) :
    Sound uuids times w' (Function.update γ i
      (some (settings, .holding (RoundPhase.without times (markOf r) unmarked) accepted none))) := by
  refine h.mark hfenced he ?_ (h.without hγ _)
  intro set now hsets mark hm key row hr hhit
  rw [hop, List.mem_singleton] at hm
  subst hm
  obtain ⟨hcolumns, hattempts, hstatus⟩ := hset set now row hsets
  have hle := (h.hit hγ hu hr hhit).2.2.2 r rfl rfl
  exact ⟨hcolumns, Or.inr ⟨hattempts, hle⟩, fun hd => Or.inl (hstatus hd)⟩

theorem publish (h : Sound uuids times w γ) {unmarked : List ClaimedRow}
    {accepted : List OutboxRecord} (hγ : γ i = some (settings, .holding unmarked accepted none))
    {r : OutboxRecord} (hu : Unmarked uuids unmarked r) (deadline : Nat) (reply : PublishReply)
    (hw : w' = { w with publications := w.publications ++ [⟨i, r, reply⟩] })
    (hfenced : Fenced times w' (Function.update γ i (some (settings,
      (RoundPhase.holding unmarked accepted none).next times (.publish r deadline) reply)))) :
    Sound uuids times w' (Function.update γ i (some (settings,
      (RoundPhase.holding unmarked accepted none).next times (.publish r deadline) reply))) := by
  obtain ⟨claimed, hc, hrecord⟩ := hu
  have hphase := h.phases i settings _ hγ
  obtain ⟨key, envelope, leasedUntil, hclaimed⟩ := hphase.1 claimed hc
  obtain ⟨r', hr', henvelope, hof, hattempts⟩ := hclaimed.record
  rw [hrecord] at hr'
  cases hr'
  have hl : Later w w' := by
    rw [hw]
    exact ⟨fun _ h => h, fun _ _ => rfl, _, rfl⟩
  have hnew : ⟨i, r, reply⟩ ∈ w'.publications := by simp [hw]
  refine h.next hfenced hl (by rw [hw]) (h.rows_of hl ?_) ?_ ?_
  · intro key row hr
    rw [hw] at hr
    exact ⟨row, hr, rfl, Or.inl rfl, fun hd => Or.inl hd⟩
  · intro p hp
    rw [hw, List.mem_append, List.mem_singleton] at hp
    rcases hp with hp | rfl
    · exact Or.inl hp
    · exact Or.inr ⟨key, hl.rows key hclaimed.row, henvelope ▸ (hclaimed.later hl).inserted, hof⟩
  · have hlater := hphase.later hl
    cases reply with
    | elapsed => exact hlater
    | accepted =>
      refine ⟨hlater.1, ?_, by simp⟩
      intro a ha
      rcases List.mem_append.mp ha with ha | ha
      · exact hlater.2.1 a ha
      · rw [List.mem_singleton.mp ha]
        exact ⟨_, hnew, rfl, rfl⟩
    | refused error =>
      refine ⟨hlater.1, hlater.2.1, ?_⟩
      rintro a ha other ho hother key' leasedUntil' hmark
      cases ha
      -- Any row the record is of was claimed with its attempts, and this refusal is one more.
      obtain ⟨key'', envelope', leased, hother'⟩ := hphase.1 other ho
      obtain ⟨r', hr', _, hof', hattempts'⟩ := hother'.record
      rw [hother] at hr'
      cases hr'
      have hkey : key'' = key' := by
        have := congrArg (Mark.key times) (hother'.mark.symm.trans hmark)
        rw [key_markAt, key_markAt] at this
        exact Option.some.inj this
      subst hkey
      have hone : w'.refusals times key'' = w.refusals times key'' + 1 := by
        simp [OutboxState.refusals, hw, PublishReply.isRefused, hof']
      have := hother'.refusals
      omega

/-- Each operation a round may perform. -/
theorem exec (h : Sound uuids times w γ) (hγ : γ i = some (settings, g)) {op : DispatchOp}
    {reply : DispatchRet op} (hallowed : g.Allowed uuids settings op)
    (he : w.exec times i op reply w') {s : OutboxPool}
    (hsupported : Supported times s (.exec i op reply)) :
    (roundProtocol uuids times settings).replies g op reply ∧
      Sound uuids times w' (Function.update γ i (some (settings, g.next times op reply))) := by
  obtain ⟨hreplies, hfenced⟩ := h.fenced.exec hγ hallowed he
  refine ⟨hreplies, ?_⟩
  cases op with
  | claimDue limit lease =>
    obtain ⟨rfl, rfl⟩ := (RoundPhase.allowed_claimDue ..).mp hallowed
    cases reply with
    | error error => exact h.claim hγ he hsupported (Or.inr rfl)
    | ok rows => exact h.claim hγ he hsupported (Or.inl rfl)
  | failUnreadable mark error =>
    -- Every row a round holds is a record.
    obtain ⟨unmarked, accepted, rfl, claimed, hc, _, error, hrecord⟩ :=
      (RoundPhase.allowed_failUnreadable ..).mp hallowed
    obtain ⟨key, envelope, leasedUntil, hclaimed⟩ := (h.phases i settings _ hγ).1 claimed hc
    obtain ⟨r, hr, _⟩ := hclaimed.record
    rw [hrecord] at hr
    cases hr
  | setDispatched marks =>
    obtain ⟨unmarked, accepted, rfl, rfl, hu⟩ := (RoundPhase.allowed_setDispatched ..).mp hallowed
    refine h.mark hfenced he ?_ ⟨by simp, by simp, by simp⟩
    intro set now hsets mark hm key row hr hhit
    cases hsets
    obtain ⟨r, ha, rfl⟩ := List.mem_map.mp hm
    obtain ⟨hof, hi, _⟩ := h.hit hγ (hu r ha) hr hhit
    obtain ⟨p, hp, hreply, rfl⟩ := (h.phases i settings _ hγ).2.1 r ha
    exact ⟨rfl, Or.inl rfl, fun _ => Or.inr ⟨p, hp, hreply, hof, hi⟩⟩
  | putBack mark error delay =>
    obtain ⟨unmarked, accepted, r, rfl, rfl, hu⟩ := (RoundPhase.allowed_putBack ..).mp hallowed
    refine h.putBack hγ hu rfl ?_ he hfenced
    intro set now row hsets
    obtain ⟨span, _, rfl⟩ := Option.map_eq_some_iff.mp hsets
    exact ⟨rfl, rfl, fun hd => hd⟩
  | setFailed mark error =>
    obtain ⟨unmarked, accepted, r, rfl, rfl, hu, _⟩ :=
      (RoundPhase.allowed_setFailed ..).mp hallowed
    refine h.putBack hγ hu rfl ?_ he hfenced
    intro set now row hsets
    cases hsets
    exact ⟨rfl, rfl, fun hd => by cases hd⟩
  | publish r deadline =>
    obtain ⟨unmarked, accepted, rfl, hu⟩ := (RoundPhase.allowed_publish ..).mp hallowed
    exact h.publish hγ hu deadline reply he hfenced
  | now =>
    obtain rfl : w' = w := he
    have hnext : g.next times .now reply = g := by cases g <;> rfl
    rw [hnext] at hfenced ⊢
    exact h.next hfenced (.refl w') rfl h.rows (fun p hp => Or.inl hp) (h.phases i settings g hγ)
  | stopping =>
    obtain rfl : w' = w := he
    have hnext : g.next times .stopping reply = g := by cases g <;> rfl
    rw [hnext] at hfenced ⊢
    exact h.next hfenced (.refl w') rfl h.rows (fun p hp => Or.inl hp) (h.phases i settings g hγ)

theorem launch (h : Sound uuids times w γ)
    (hl : (outboxSystem uuids times debug).launch i settings w w') :
    Sound uuids times w' (Function.update γ i (some (settings, .fresh))) := by
  have hfenced := h.fenced.launch hl
  obtain ⟨_, _, rfl⟩ := hl
  have hlater : Later w { w with rounds := Function.update w.rounds i (some settings) } :=
    .of_rows (fun _ h => h) rfl rfl
  refine h.next hfenced hlater rfl (h.rows_of hlater ?_) (fun p hp => Or.inl hp) trivial
  exact fun key row hr => ⟨row, hr, rfl, Or.inl rfl, fun hd => Or.inl hd⟩

theorem leave (h : Sound uuids times w γ) : Sound uuids times w (Function.update γ i none) := by
  refine ⟨h.fenced.leave, h.transactions, h.rows, h.published, ?_⟩
  intro k settings g hk
  rcases update_eq_some.mp hk with ⟨_, hk⟩ | ⟨_, hk⟩
  · cases hk
  · exact h.phases k settings g hk

/-- What others do, given what it does to the transactions and the rows. -/
theorem others (h : Sound uuids times w γ) (hfenced : Fenced times w' γ) (hl : Later w w')
    (hpublications : w'.publications = w.publications)
    (htransactions : ∀ t transaction, w'.transactions t = some transaction →
      InRange times transaction.start)
    (hrows : ∀ key row, w'.table.rows key = some row → RowSound uuids times w' key row) :
    Sound uuids times w' γ := by
  refine ⟨hfenced, htransactions, hrows, ?_, fun k s g hk => (h.phases k s g hk).later hl⟩
  intro p hp
  exact hl.isInserted (h.published p (hpublications ▸ hp))

/-- A transaction starts, inserts or rolls back. -/
theorem transaction (h : Sound uuids times w γ) {t : Nat} {transaction : Option OpenTransaction}
    (hrange : ∀ started, transaction = some started → InRange times started.start)
    (hfenced : Fenced times
      { w with transactions := Function.update w.transactions t transaction } γ) :
    Sound uuids times { w with transactions := Function.update w.transactions t transaction } γ := by
  have hl : Later w { w with transactions := Function.update w.transactions t transaction } :=
    .of_rows (fun _ h => h) rfl rfl
  refine h.others hfenced hl rfl ?_ (h.rows_of hl ?_)
  · intro k other hk
    rcases update_eq_some.mp hk with ⟨_, ht⟩ | ⟨_, hk⟩
    · exact hrange other ht
    · exact h.transactions k other hk
  · exact fun key row hr => ⟨row, hr, rfl, Or.inl rfl, fun hd => Or.inl hd⟩

theorem commit (h : Sound uuids times w γ) {t : Nat} (ha : w.act uuids (.commit t) w') :
    Sound uuids times w' γ := by
  have hfenced := h.fenced.env ha
  obtain ⟨start, envelopes, ht, _, hnew, rfl⟩ := ha
  have hl : Later w { w with
      table := w.table.insert uuids envelopes start
      transactions := Function.update w.transactions t none
      inserted := fun key =>
        (envelopes.find? fun envelope => (start, envelope.id.uuid) = key).or (w.inserted key) } := by
    refine ⟨fun key hr => ?_, fun key hr => ?_, [], (List.append_nil _).symm⟩
    all_goals obtain ⟨row, hr⟩ := Option.ne_none_iff_exists'.mp hr
    · rw [OutboxTable.rows_insert_of_some hnew hr]
      simp
    · dsimp only
      rw [OutboxTable.find_insert_of_some hnew hr]
      rfl
  refine h.others hfenced hl rfl ?_ ?_
  · intro k other hk
    rcases update_eq_some.mp hk with ⟨_, ht⟩ | ⟨_, hk⟩
    · cases ht
    · exact h.transactions k other hk
  · intro key row hr
    dsimp only [OutboxTable.insert] at hr
    cases hf : envelopes.find? fun envelope => (start, envelope.id.uuid) = key with
    | none =>
      rw [hf] at hr
      exact (h.rows key row hr).change hl hr rfl (Or.inl rfl) fun hd => Or.inl hd
    | some envelope =>
      rw [hf] at hr
      cases hr
      have hkey : (start, envelope.id.uuid) = key := by simpa using List.find?_some hf
      subst hkey
      refine ⟨⟨envelope, ?_, rfl, rfl⟩, h.transactions t _ ht, Int.le_refl 0, ?_, ?_⟩
      · dsimp only
        rw [hf]
        rfl
      · exact Int.natCast_nonneg _
      · exact fun hd => by cases hd

theorem env (h : Sound uuids times w γ) {a : OutboxAction} (ha : w.act uuids a w') {s : OutboxPool}
    (hsupported : Supported times s (.env a)) : Sound uuids times w' γ := by
  have hfenced := h.fenced.env ha
  cases a with
  | begin t now =>
    obtain ⟨_, rfl⟩ := ha
    exact h.transaction (fun _ he => by cases he; exact hsupported) hfenced
  | insert t envelope =>
    obtain ⟨start, envelopes, ht, rfl⟩ := ha
    have hrange := h.transactions t _ ht
    exact h.transaction (fun _ he => by cases he; exact hrange) hfenced
  | rollback t =>
    obtain ⟨_, rfl⟩ := ha
    exact h.transaction (fun _ he => by cases he) hfenced
  | commit t => exact h.commit ha
  | requeue key =>
    obtain ⟨failed, hf, _, rfl⟩ := ha
    have hrow : ∀ k row, Function.update w.table.rows key (some { failed with status := .pending }) k =
        some row → ∃ before, w.table.rows k = some before ∧ row.columns = before.columns ∧
          row.attempts = before.attempts ∧ (row.status = .dispatched → before.status = .dispatched) := by
      intro k row hr
      rcases update_eq_some.mp hr with ⟨rfl, he⟩ | ⟨_, hr⟩
      · cases he
        exact ⟨failed, hf, rfl, rfl, fun hd => by cases hd⟩
      · exact ⟨row, hr, rfl, rfl, fun hd => hd⟩
    have hl : Later w { w with table := { w.table with
        rows := Function.update w.table.rows key (some { failed with status := .pending }) } } := by
      refine .of_rows (fun k hr => ?_) rfl rfl
      by_cases hk : k = key
      · subst hk
        simp
      · simpa [hk] using hr
    refine h.others hfenced hl rfl h.transactions (h.rows_of hl fun k row hr => ?_)
    obtain ⟨before, hb, hcolumns, hattempts, hstatus⟩ := hrow k row hr
    exact ⟨before, hb, hcolumns, Or.inl hattempts, fun hd => Or.inl (hstatus hd)⟩
  | write key row now => exact hsupported.elim

theorem empty (h : w.Empty) : Sound uuids times w fun _ => none := by
  refine ⟨Fenced.unclaimed h.unclaimed, ?_, ?_, ?_, by simp⟩
  · simp [h.transactions]
  · simp [h.rows]
  · simp [h.publications]

theorem keeps : Keeps (outboxSystem uuids times debug) (Supported times) (roundProtocol uuids times)
    (fun _ => .fresh) (Sound uuids times) where
  body := outboxSystem_obeys uuids times debug
  launch h _ hl := h.launch hl
  exec h _ hγ hallowed he hc := h.exec hγ hallowed he hc
  leave h _ hl := by
    rw [show _ = _ from hl]
    exact h.leave
  env h ha hc := h.env ha hc

theorem law (h : Sound uuids times w γ) : w.Law times where
  published := h.published
  dispatched key row hr := (h.rows key row hr).dispatched
  attempts key row hr := (h.rows key row hr).refusals

/-- A round marks a row failed only after its last attempt. -/
theorem failed (h : Sound uuids times w γ) (hγ : γ i = some (settings, g)) {op : DispatchOp}
    {reply : DispatchRet op} (hallowed : g.Allowed uuids settings op)
    (he : w.exec times i op reply w') (hr : w.table.rows key = some row)
    (hr' : w'.table.rows key = some row') (hstatus : row.status ≠ .failed)
    (hfailed : row'.status = .failed) :
    1 ≤ row'.attempts ∧ settings.retry.attempts ≤ row'.attempts := by
  by_cases hop : ∃ limit lease, op = .claimDue limit lease
  · -- A claim keeps the status.
    obtain ⟨limit, lease, rfl⟩ := hop
    rcases he with ⟨span, now, keys, table, _, hclaim, rfl, _⟩ | ⟨_, rfl⟩
    · dsimp only at hr'
      rw [hclaim.eq] at hr'
      obtain ⟨before, hb, rfl⟩ := OutboxTable.rows_claim.mp hr'
      rw [hr] at hb
      cases hb
      split at hfailed
      · exact absurd hfailed hstatus
      · exact absurd hfailed hstatus
    · rw [hr] at hr'
      cases hr'
      exact absurd hfailed hstatus
  · have hchange : w'.table.rows key ≠ w.table.rows key := by
      rw [hr, hr']
      rintro heq
      cases heq
      exact hstatus hfailed
    obtain ⟨set, now, before, hsets, hb, hafter, mark, hm, hhit⟩ :=
      OutboxState.exec_rows he (fun limit lease hc => hop ⟨limit, lease, hc⟩) hchange
    rw [hr] at hb
    cases hb
    rw [hr'] at hafter
    cases hafter
    cases op with
    | failUnreadable mark' error =>
      obtain ⟨unmarked, accepted, rfl, claimed, hc, _, error, hrecord⟩ :=
        (RoundPhase.allowed_failUnreadable ..).mp hallowed
      obtain ⟨_, _, _, hclaimed⟩ := (h.phases i settings _ hγ).1 claimed hc
      obtain ⟨r, hrec, _⟩ := hclaimed.record
      rw [hrecord] at hrec
      cases hrec
    | setDispatched marks =>
      cases hsets
      cases hfailed
    | putBack mark' error delay =>
      obtain ⟨span, _, rfl⟩ := Option.map_eq_some_iff.mp hsets
      exact absurd hfailed hstatus
    | setFailed mark' error =>
      cases hsets
      obtain ⟨unmarked, accepted, r, rfl, rfl, hu, hlast⟩ :=
        (RoundPhase.allowed_setFailed ..).mp hallowed
      rw [DispatchOp.marks, List.mem_singleton] at hm
      subst hm
      have hattempts := (h.hit hγ hu hr hhit).2.2.1
      have hle : settings.retry.attempts ≤ failedAttempt r := of_decide_eq_true hlast
      unfold failedAttempt at hle
      change 1 ≤ row.attempts + 1 ∧ (settings.retry.attempts : Int) ≤ row.attempts + 1
      omega
    | _ => cases hsets

end Sound

/-- An action of others marks no row failed. -/
theorem act_failed {a : OutboxAction} (ha : w.act uuids a w') (hr : w.table.rows key = some row)
    (hr' : w'.table.rows key = some row') (hstatus : row.status ≠ .failed) :
    row'.status ≠ .failed := by
  have same : w'.table.rows key = w.table.rows key → row'.status ≠ .failed := by
    intro he
    rw [he, hr] at hr'
    cases hr'
    exact hstatus
  cases a with
  | begin t now =>
    obtain ⟨_, rfl⟩ := ha
    exact same rfl
  | insert t envelope =>
    obtain ⟨_, _, _, rfl⟩ := ha
    exact same rfl
  | rollback t =>
    obtain ⟨_, rfl⟩ := ha
    exact same rfl
  | commit t =>
    obtain ⟨start, envelopes, _, _, hnew, rfl⟩ := ha
    exact same ((OutboxTable.rows_insert_of_some hnew hr).trans hr.symm)
  | requeue key' =>
    obtain ⟨failed, _, _, rfl⟩ := ha
    rcases update_eq_some.mp hr' with ⟨_, he⟩ | ⟨_, he⟩
    · cases he
      simp
    · exact same (hr'.trans he.symm)
  | write key' written now =>
    obtain ⟨hnone, rfl⟩ := ha
    refine same (Function.update_of_ne ?_ ..)
    rintro rfl
    rw [hnone] at hr
    cases hr

/-- In every state of every run, only envelopes of committed rows have been published, each as it
    was inserted; a row is dispatched only if the broker accepted it; and a row has no more failed
    attempts than refused publishes. And a row is marked failed only by a round, when its attempts
    reach the round's last one. -/
theorem outbox_law (uuids : UuidFormat) (times : PgTimes) (debug : String → String)
    {s : OutboxPool}
    (h : (outboxSystem uuids times debug).Reach OutboxState.Empty (Supported times) s) :
    s.shared.Law times ∧
      ∀ l s', (outboxSystem uuids times debug).Step s l s' → ∀ key row row',
        s.shared.table.rows key = some row → s'.shared.table.rows key = some row' →
        row.status ≠ .failed → row'.status = .failed →
        ∃ i op reply settings, l = .exec i op reply ∧ s.shared.rounds i = some settings ∧
          1 ≤ row'.attempts ∧ settings.retry.attempts ≤ row'.attempts := by
  obtain ⟨γ, _, hsound⟩ := h.tracked Sound.keeps fun _ => Sound.empty
  refine ⟨hsound.law, ?_⟩
  intro l s' hs key row row' hr hr' hstatus hfailed
  have same : s'.shared.table = s.shared.table → False := by
    intro he
    rw [he, hr] at hr'
    cases hr'
    exact hstatus hfailed
  cases l with
  | launch i job =>
    cases hs with
    | launch _ hl =>
      obtain ⟨_, _, rfl⟩ := hl
      exact (same rfl).elim
  | leave i =>
    cases hs with
    | leave _ hl => exact (same (congrArg OutboxState.table hl)).elim
  | env a =>
    cases hs with
    | env ha => exact absurd hfailed (act_failed ha hr hr' hstatus)
  | exec i op reply =>
    obtain ⟨γ, settings, g, hsound, hγ, hallowed, he⟩ := h.allowed Sound.keeps (fun _ => Sound.empty) hs
    exact ⟨i, op, reply, settings, rfl, hsound.fenced.started i settings g hγ,
      hsound.failed hγ hallowed he hr hr' hstatus hfailed⟩

/-- A row is inserted, published and marked dispatched. -/
theorem outbox_law_dispatched :
    ∃ s : OutboxPool, ((s.shared.table.rows paidKey).map Postgres.OutboxRow.status = some .dispatched) ∧
      s.shared.publications.map Publication.record = [paidRecord 30000001] ∧
      s.shared.Law .utc := by
  let settings := DispatchSettings.default
  let empty : OutboxTable := ⟨fun _ => none, fun _ => 0, fun _ => []⟩
  let committed := empty.insert .rfc9562 [basketPaid] 0
  let claimed := committed.claim 0 [paidKey] 1 (1 + 30000000)
  have hspan : interval settings.lease = some 30000000 := by decide
  have hyears : InYears 30000001 := by decide
  have h0 : (outboxSystem .rfc9562 .utc id).Reach OutboxState.Empty (Supported .utc)
      ⟨fun _ => none, empty, fun _ => none, [], fun _ => none, fun _ => none⟩ :=
    .init ⟨⟨rfl, rfl⟩, rfl, rfl, rfl, rfl⟩
  have h1 := h0.env (.begin 0 0) ⟨rfl, rfl⟩ ⟨by decide, by decide⟩
  have h2 := h1.env (.insert 0 basketPaid) ⟨0, [], rfl, rfl⟩ trivial
  have h3 := h2.env (.commit 0) ⟨0, [basketPaid], rfl, by decide, by simp [empty], rfl⟩ trivial
  have h4 := h3.launch 0 settings rfl ⟨rfl, rfl, rfl⟩ trivial
  rw [outboxSystem_body] at h4
  have h5 := h4.exec 0 .now (0 : Nat) rfl rfl trivial
  have h6 := h5.exec 0 (.claimDue 100 settings.lease) (.ok [paidClaim 30000001]) rfl
    (Or.inl ⟨30000000, 1, [paidKey], claimed, hspan,
      claimDue_paid paidRow _ (by decide) rfl rfl (by decide) (by decide), rfl, ?rows⟩) ?years
  have h7 := h6.exec 0 .stopping false (by
    change some (System.Proc.mk settings
      (readRows .rfc9562 id [paidClaim 30000001] >>= afterClaim settings 0)) = _
    rw [readRows_paidClaim id hyears]
    rfl) rfl trivial
  have h8 := h7.exec 0 .now (0 : Nat) rfl rfl trivial
  have h9 := h8.exec 0 (.publish (paidRecord 30000001) _) .accepted rfl rfl trivial
  let due := { paidRow with availableAt := 30000001 }
  have hr : claimed.rows paidKey = some due := rfl
  have hmark := markRows_paid due 2 hyears .setDispatched hr (by decide) (by decide)
  have hchange := rows_markRows_paid due 2 hyears .setDispatched hr rfl rfl
  have h10 := h9.exec 0 (.setDispatched [markOf (paidRecord 30000001)]) (.ok ()) rfl
    (Or.inl ⟨_, _, _, rfl, hmark, rfl⟩) trivial
  refine ⟨_, ?_, rfl, (outbox_law _ _ _ h10).1⟩
  · exact congrArg (Option.map Postgres.OutboxRow.status) hchange
  case rows =>
    intro rows hrows
    cases hrows
    exact .cons rfl .nil
  case years =>
    intro rows hrows row hrow
    cases hrows
    rw [List.mem_singleton.mp hrow]
    exact ⟨30000001, rfl, hyears, by decide⟩

end SisaMessaging.Runtime
