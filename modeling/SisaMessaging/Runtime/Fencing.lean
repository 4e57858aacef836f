/-
  Marks are fenced: a mark changes a row only while no other claim took it after the mark's own.

  `Held` is what stays true of a row that a round claimed and hasn't marked yet: the row's due time
  still is the one the claim set, and the claim is the last, or the due time is past it for good.
  `Fenced` says so of every row of every round, and each step of any party keeps it.
-/
import SisaMessaging.Lib.Forall2
import SisaMessaging.Runtime.OutboxSystem

namespace SisaMessaging.Runtime

open SisaMessaging.Core SisaMessaging.Postgres SisaMessaging.Lib
open SisaMessaging.Lib.System (Keeps Reach Step update_eq_some)

variable {uuids : UuidFormat} {times : PgTimes} {debug : String → String}

/-! ## Marks of a claimed row -/

/-- The mark is one of a claimed row: in the row's texts, or in those of its record. -/
def Finds (uuids : UuidFormat) (mark : Mark) (claimed : ClaimedRow) : Prop :=
  mark = claimed.mark ∨ ∃ r, record uuids claimed = .ok r ∧ mark = markOf r

/-- A mark of a claimed row that reads as a key and a due time reads as the row's. -/
theorem Finds.reads {mark : Mark} {claimed : ClaimedRow} {key : RowKey} {token : Int}
    (h : Finds uuids mark claimed) (hc : claimed.mark = markAt times key token) :
    (∀ read, mark.key times = some read → read = key) ∧
      ∀ read, times.cast mark.leasedUntil = some read → read = token := by
  obtain ⟨hcreated, hid, hleased⟩ : claimed.createdAt = times.json key.1 ∧
      claimed.columns.id = key.2 ∧ claimed.availableAt = times.json token := by
    simpa [ClaimedRow.mark, markAt] using hc
  rcases h with rfl | ⟨r, hr, rfl⟩
  · rw [hc, key_markAt]
    refine ⟨fun read h => (Option.some.inj h).symm, fun read h => ?_⟩
    rw [markAt, times.cast_json] at h
    exact (Option.some.inj h).symm
  · obtain ⟨hrid, hrcreated, _, hrleased⟩ := record_eq_ok hr
    rw [hcreated] at hrcreated
    rw [hleased] at hrleased
    refine ⟨fun read h => ?_, times.cast_toText token _ hrleased⟩
    obtain ⟨createdAt, hcast, rfl⟩ := Option.map_eq_some_iff.mp h
    exact Prod.ext (times.cast_toText key.1 _ hrcreated _ hcast) (hrid.trans hid)

/-- A round marks only rows it claimed and hasn't marked. -/
theorem RoundPhase.finds {settings : DispatchSettings} {g : RoundPhase} {op : DispatchOp}
    (h : g.Allowed uuids settings op) {mark : Mark} (hm : mark ∈ op.marks) :
    ∃ unmarked accepted refused, g = .holding unmarked accepted refused ∧
      ∃ claimed ∈ unmarked, Finds uuids mark claimed := by
  cases op with
  | failUnreadable mark' error =>
    obtain ⟨unmarked, accepted, rfl, claimed, hc, hmark, _⟩ :=
      (RoundPhase.allowed_failUnreadable ..).mp h
    obtain rfl : mark = mark' := List.mem_singleton.mp hm
    exact ⟨unmarked, accepted, none, rfl, claimed, hc, Or.inl hmark.symm⟩
  | setDispatched marks =>
    obtain ⟨unmarked, accepted, rfl, rfl, hu⟩ := (RoundPhase.allowed_setDispatched ..).mp h
    obtain ⟨r, hr, rfl⟩ := List.mem_map.mp hm
    obtain ⟨claimed, hc, he⟩ := hu r hr
    exact ⟨unmarked, accepted, none, rfl, claimed, hc, Or.inr ⟨r, he, rfl⟩⟩
  | putBack mark' error delay =>
    obtain ⟨unmarked, accepted, r, rfl, hmark, claimed, hc, he⟩ :=
      (RoundPhase.allowed_putBack ..).mp h
    obtain rfl : mark = mark' := List.mem_singleton.mp hm
    exact ⟨unmarked, accepted, some r, rfl, claimed, hc, Or.inr ⟨r, he, hmark⟩⟩
  | setFailed mark' error =>
    obtain ⟨unmarked, accepted, r, rfl, hmark, ⟨claimed, hc, he⟩, _⟩ :=
      (RoundPhase.allowed_setFailed ..).mp h
    obtain rfl : mark = mark' := List.mem_singleton.mp hm
    exact ⟨unmarked, accepted, some r, rfl, claimed, hc, Or.inr ⟨r, he, hmark⟩⟩
  | _ => exact absurd hm List.not_mem_nil

/-- The rows of a claim are different rows, whose texts read back. -/
theorem claimReply {keys : List RowKey} (hk : keys.Nodup) {table : OutboxTable}
    {rows : List ClaimedRow}
    (h : List.Forall₂ (fun key row => (table.rows key).bind (claimedRow times key) = some row)
      keys rows) : ClaimReply uuids times rows := by
  have hmark : List.Forall₂ (fun key (row : ClaimedRow) => ∃ token, row.mark = markAt times key token)
      keys rows := by
    refine h.imp fun key claimed hc => ?_
    obtain ⟨row, _, hc⟩ := Option.bind_eq_some_iff.mp hc
    exact ⟨row.availableAt, (claimedRow_eq hc).1⟩
  constructor
  · clear h
    induction hmark with
    | nil => exact List.Pairwise.nil
    | @cons key row keys rows hrow hrows ih =>
      obtain ⟨hnot, hk⟩ := List.nodup_cons.mp hk
      refine List.pairwise_cons.mpr ⟨fun other ho hsame => ?_, ih hk⟩
      obtain ⟨key', hkey', token', hother⟩ := forall₂_mem_right hrows ho
      obtain ⟨token, hrow⟩ := hrow
      have := hsame.2
      rw [hrow, hother, key_markAt, key_markAt] at this
      exact hnot (Option.some.inj this ▸ hkey')
  · intro row hr r hrec key' hkey'
    obtain ⟨key, _, token, hrow⟩ := forall₂_mem_right hmark hr
    have hfinds : Finds uuids (markOf r) row := Or.inr ⟨r, hrec, rfl⟩
    rw [(hfinds.reads hrow).1 key' hkey', hrow, key_markAt]

/-! ## A claimed row that isn't marked -/

/-- What stays true of it. -/
def Held (times : PgTimes) (table : OutboxTable) (i : Nat) (claimed : ClaimedRow) : Prop :=
  ∃ key row token, claimed.mark = markAt times key token ∧ table.rows key = some row ∧
    (table.lease key row).Guards i token ∧
    (row.availableAt = token → row.attempts = claimed.attempts)

namespace Held

variable {table table' : OutboxTable} {i j : Nat} {claimed : ClaimedRow}

/-- A mark of it finds the row only while the claim is the last one. -/
theorem hit (h : Held times table i claimed) {mark : Mark} (hm : Finds uuids mark claimed)
    {key : RowKey} {row : Postgres.OutboxRow} (hr : table.rows key = some row)
    (hhit : mark.hits times key row = true) :
    (table.claims key).getLast? = some i ∧ row.attempts = claimed.attempts := by
  obtain ⟨_, hkey, hdue⟩ := Mark.hits_iff.mp hhit
  obtain ⟨key', row', token, hc, hr', hguards, hattempts⟩ := h
  obtain rfl := (hm.reads hc).1 key hkey
  obtain rfl : row = row' := Option.some.inj (hr.symm.trans hr')
  have htoken := (hm.reads hc).2 _ hdue
  exact ⟨hguards.last htoken, hattempts htoken⟩

/-- A statement on rows that the round isn't the last to have claimed keeps it. -/
theorem update (h : Held times table j claimed) {hit : RowKey → Postgres.OutboxRow → Bool}
    {set : Postgres.OutboxRow → Postgres.OutboxRow} {now : Int} (hadvanced : table.Advanced hit now)
    (hset : ∀ row, (set row).availableAt = row.availableAt ∨ now ≤ (set row).availableAt)
    (hother : ∀ key row, claimed.mark.key times = some key → table.rows key = some row →
      hit key row = true → (table.claims key).getLast? ≠ some j) :
    Held times (table.update hit set now) j claimed := by
  obtain ⟨key, row, token, hc, hr, hguards, hattempts⟩ := h
  cases hh : hit key row with
  | true =>
    have hne := hother key row (by rw [hc, key_markAt]) hr hh
    have hguards' : ((table.update hit set now).lease key (set row)).Guards j token := by
      rw [OutboxTable.lease_update_hit hr hh]
      exact hguards.change hne (hadvanced key row hr hh) (hset row)
    refine ⟨key, set row, token, hc, ?_, hguards', fun hd => absurd (hguards'.last hd) hne⟩
    exact OutboxTable.rows_update.mpr ⟨row, hr, by rw [hh, if_pos rfl]⟩
  | false =>
    refine ⟨key, row, token, hc, ?_, ?_, hattempts⟩
    · exact OutboxTable.rows_update.mpr ⟨row, hr, by rw [hh]; rfl⟩
    · rwa [OutboxTable.lease_update_other hr hh]

/-- A claim by another round keeps it. -/
theorem claim (h : Held times table j claimed) {limit : Nat} {span now : Int}
    {keys : List RowKey} (hclaim : ClaimDue i limit span now keys table table')
    (hspan : 0 < span) : Held times table' j claimed := by
  obtain ⟨key, row, token, hc, hr, hguards, hattempts⟩ := h
  rw [hclaim.eq]
  by_cases hkey : key ∈ keys
  · obtain ⟨row', hr', _, hdue⟩ := hclaim.due key hkey
    obtain rfl : row = row' := Option.some.inj (hr.symm.trans hr')
    have hstamp : table.stamps key < now :=
      hclaim.advanced key row hr (List.contains_iff_mem.mpr hkey)
    have hpast : token ≤ now := hguards.past hdue hstamp
    refine ⟨key, { row with availableAt := now + span }, token, hc, ?_, ?_, fun hd => ?_⟩
    · exact OutboxTable.rows_claim.mpr ⟨row, hr, if_pos hkey⟩
    · rw [OutboxTable.lease_claim_mem hr hkey]
      exact hguards.take hdue hstamp (by omega) i
    · have hd : now + span = token := hd
      omega
  · refine ⟨key, row, token, hc, OutboxTable.rows_claim.mpr ⟨row, hr, if_neg hkey⟩, ?_, hattempts⟩
    rwa [OutboxTable.lease_claim_other hr hkey]

/-- What leaves every row's lease and attempts keeps it. -/
theorem frame (h : Held times table j claimed)
    (hrows : ∀ key row, table.rows key = some row → ∃ row', table'.rows key = some row' ∧
      row'.attempts = row.attempts ∧ table'.lease key row' = table.lease key row) :
    Held times table' j claimed := by
  obtain ⟨key, row, token, hc, hr, hguards, hattempts⟩ := h
  obtain ⟨row', hr', ha, hlease⟩ := hrows key row hr
  have hdue : row'.availableAt = row.availableAt := congrArg Lease.due hlease
  refine ⟨key, row', token, hc, hr', by rwa [hlease], ?_⟩
  rw [ha, hdue]
  exact hattempts

end Held

/-- A claim's rows are held by it. -/
theorem held_of_claim {table table' : OutboxTable} {i limit : Nat} {span now : Int}
    {keys : List RowKey} (hclaim : ClaimDue i limit span now keys table table') {key : RowKey}
    (hkey : key ∈ keys) {claimed : ClaimedRow}
    (h : (table'.rows key).bind (claimedRow times key) = some claimed) :
    Held times table' i claimed := by
  obtain ⟨row, hr, hc⟩ := Option.bind_eq_some_iff.mp h
  obtain ⟨hmark, hattempts⟩ := claimedRow_eq hc
  refine ⟨key, row, row.availableAt, hmark, hr, ?_, fun _ => hattempts.symm⟩
  rw [hclaim.eq] at hr ⊢
  obtain ⟨before, hb, he⟩ := OutboxTable.rows_claim.mp hr
  rw [if_pos hkey] at he
  subst he
  rw [OutboxTable.lease_claim_mem hb hkey]
  exact Lease.guards_take ..

/-! ## The invariant -/

structure Fenced (times : PgTimes) (w : OutboxState)
    (γ : Nat → Option (DispatchSettings × RoundPhase)) : Prop where
  started : ∀ i settings g, γ i = some (settings, g) → w.rounds i = some settings
  leases : ∀ i settings, w.rounds i = some settings → settings.lease.isZero = false
  claimed : ∀ key, ∀ i ∈ w.table.claims key, w.rounds i ≠ none
  fresh : ∀ i settings, γ i = some (settings, .fresh) → ∀ key, i ∉ w.table.claims key
  once : ∀ key, (w.table.claims key).Nodup
  held : ∀ i settings unmarked accepted refused,
    γ i = some (settings, .holding unmarked accepted refused) →
    ∀ claimed ∈ unmarked, Held times w.table i claimed

namespace Fenced

variable {w w' : OutboxState} {γ : Nat → Option (DispatchSettings × RoundPhase)} {i : Nat}
  {settings : DispatchSettings} {g g' : RoundPhase}

theorem launch (h : Fenced times w γ)
    (hl : (outboxSystem uuids times debug).launch i settings w w') :
    Fenced times w' (Function.update γ i (some (settings, .fresh))) := by
  obtain ⟨hnew, hlease, rfl⟩ := hl
  refine ⟨?_, ?_, ?_, ?_, h.once, ?_⟩
  · intro k settings' g hk
    rcases update_eq_some.mp hk with ⟨rfl, he⟩ | ⟨hki, hk⟩
    · cases he
      exact Function.update_self ..
    · exact update_eq_some.mpr (Or.inr ⟨hki, h.started k settings' g hk⟩)
  · intro k settings' hk
    rcases update_eq_some.mp hk with ⟨rfl, he⟩ | ⟨_, hk⟩
    · cases he
      exact hlease
    · exact h.leases k settings' hk
  · intro key k hk
    have hne : k ≠ i := by
      rintro rfl
      exact h.claimed key k hk hnew
    dsimp only
    rw [Function.update_of_ne hne]
    exact h.claimed key k hk
  · intro k settings' hk key hmem
    rcases update_eq_some.mp hk with ⟨rfl, _⟩ | ⟨_, hk⟩
    · exact h.claimed key k hmem hnew
    · exact h.fresh k settings' hk key hmem
  · intro k settings' unmarked accepted refused hk
    rcases update_eq_some.mp hk with ⟨_, hk⟩ | ⟨_, hk⟩
    · cases hk
    · exact h.held k settings' unmarked accepted refused hk

theorem leave (h : Fenced times w γ) : Fenced times w (Function.update γ i none) := by
  have hsome : ∀ {k q}, Function.update γ i none k = some q → γ k = some q := by
    intro k q hk
    rcases update_eq_some.mp hk with ⟨_, hk⟩ | ⟨_, hk⟩
    · cases hk
    · exact hk
  exact ⟨fun k s g hk => h.started k s g (hsome hk), h.leases, h.claimed,
    fun k s hk => h.fresh k s (hsome hk), h.once, fun k s u a r hk => h.held k s u a r (hsome hk)⟩

/-- A step of round `i`, given who claimed each row after it, and what it does to the rows held. -/
theorem next (h : Fenced times w γ) (hγ : γ i = some (settings, g))
    (hrounds : w'.rounds = w.rounds)
    (hclaims : ∀ key, w'.table.claims key = w.table.claims key ∨
      g = .fresh ∧ g' ≠ .fresh ∧ w'.table.claims key = w.table.claims key ++ [i])
    (hfresh : g' = .fresh → g = .fresh)
    (hothers : ∀ j claimed, j ≠ i → Held times w.table j claimed → Held times w'.table j claimed)
    (hown : ∀ unmarked accepted refused, g' = .holding unmarked accepted refused →
      ∀ claimed ∈ unmarked, Held times w'.table i claimed) :
    Fenced times w' (Function.update γ i (some (settings, g'))) := by
  refine ⟨?_, by rw [hrounds]; exact h.leases, ?_, ?_, ?_, ?_⟩
  · intro k settings' g'' hk
    rw [hrounds]
    rcases update_eq_some.mp hk with ⟨rfl, he⟩ | ⟨_, hk⟩
    · cases he
      exact h.started k settings g hγ
    · exact h.started k settings' g'' hk
  · intro key k hk
    rw [hrounds]
    rcases hclaims key with he | ⟨_, _, he⟩
    · exact h.claimed key k (he ▸ hk)
    · rw [he, List.mem_append, List.mem_singleton] at hk
      rcases hk with hk | rfl
      · exact h.claimed key k hk
      · rw [h.started k settings g hγ]
        simp
  · intro k settings' hk key hmem
    rcases update_eq_some.mp hk with ⟨rfl, he⟩ | ⟨hki, hk⟩
    · cases he
      rcases hclaims key with he | ⟨_, hne, _⟩
      · exact h.fresh k settings (hfresh rfl ▸ hγ) key (he ▸ hmem)
      · exact hne rfl
    · rcases hclaims key with he | ⟨_, _, he⟩
      · exact h.fresh k settings' hk key (he ▸ hmem)
      · rw [he, List.mem_append, List.mem_singleton] at hmem
        rcases hmem with hmem | hmem
        · exact h.fresh k settings' hk key hmem
        · exact hki hmem
  · intro key
    rcases hclaims key with he | ⟨hg, _, he⟩
    · rw [he]
      exact h.once key
    · rw [he]
      refine List.nodup_append.mpr ⟨h.once key, by simp, ?_⟩
      rintro k hk j hj rfl
      rw [List.mem_singleton] at hj
      exact h.fresh i settings (hg ▸ hγ) key (hj ▸ hk)
  · intro k settings' unmarked accepted refused hk claimed hm
    rcases update_eq_some.mp hk with ⟨rfl, he⟩ | ⟨hki, hk⟩
    · cases he
      exact hown unmarked accepted refused rfl claimed hm
    · exact hothers k claimed hki (h.held k settings' unmarked accepted refused hk claimed hm)

/-- What others do to the rows, keeping who claimed them. -/
theorem frame (h : Fenced times w γ) (hrounds : w'.rounds = w.rounds)
    (hclaims : w'.table.claims = w.table.claims)
    (hrows : ∀ key row, w.table.rows key = some row → ∃ row', w'.table.rows key = some row' ∧
      row'.attempts = row.attempts ∧ w'.table.lease key row' = w.table.lease key row) :
    Fenced times w' γ := by
  refine ⟨by rw [hrounds]; exact h.started, by rw [hrounds]; exact h.leases,
    by rw [hrounds, hclaims]; exact h.claimed, by rw [hclaims]; exact h.fresh,
    by rw [hclaims]; exact h.once, ?_⟩
  intro k settings unmarked accepted refused hk claimed hm
  exact (h.held k settings unmarked accepted refused hk claimed hm).frame hrows

theorem env (h : Fenced times w γ) {a : OutboxAction} (ha : w.act uuids a w') :
    Fenced times w' γ := by
  cases a with
  | begin t now =>
    obtain ⟨_, rfl⟩ := ha
    exact h.frame rfl rfl fun key row hr => ⟨row, hr, rfl, rfl⟩
  | insert t envelope =>
    obtain ⟨_, _, _, rfl⟩ := ha
    exact h.frame rfl rfl fun key row hr => ⟨row, hr, rfl, rfl⟩
  | rollback t =>
    obtain ⟨_, rfl⟩ := ha
    exact h.frame rfl rfl fun key row hr => ⟨row, hr, rfl, rfl⟩
  | commit t =>
    obtain ⟨start, envelopes, _, _, hnew, rfl⟩ := ha
    refine h.frame rfl rfl fun key row hr => ⟨row, OutboxTable.rows_insert_of_some hnew hr, rfl, ?_⟩
    exact OutboxTable.lease_insert_of_some hnew hr
  | requeue key' =>
    obtain ⟨failed, hf, _, rfl⟩ := ha
    refine h.frame rfl rfl fun key row hr => ?_
    by_cases hk : key = key'
    · subst hk
      rw [hf] at hr
      cases hr
      exact ⟨_, Function.update_self .., rfl, rfl⟩
    · exact ⟨row, (Function.update_of_ne hk ..).trans hr, rfl, rfl⟩
  | write key' written now =>
    obtain ⟨hnone, rfl⟩ := ha
    refine h.frame rfl rfl fun key row hr => ?_
    have hk : key ≠ key' := by
      rintro rfl
      rw [hnone] at hr
      cases hr
    refine ⟨row, (Function.update_of_ne hk ..).trans hr, rfl, ?_⟩
    simp [OutboxTable.lease, hk]

/-- A mark finds a row of the round only while the round's claim is the row's last. -/
theorem hit (h : Fenced times w γ) (hγ : γ i = some (settings, g)) {op : DispatchOp}
    (hallowed : g.Allowed uuids settings op) {mark : Mark} (hm : mark ∈ op.marks) {key : RowKey}
    {row : Postgres.OutboxRow} (hr : w.table.rows key = some row)
    (hhit : mark.hits times key row = true) :
    (w.table.claims key).getLast? = some i := by
  obtain ⟨unmarked, accepted, refused, rfl, claimed, hc, hfinds⟩ := RoundPhase.finds hallowed hm
  exact ((h.held i settings unmarked accepted refused hγ claimed hc).hit hfinds hr hhit).1

/-- A mark keeps the rows of the other rounds, and those of its own that it doesn't find. -/
theorem mark (h : Fenced times w γ) {unmarked left : List ClaimedRow}
    {accepted accepted' : List OutboxRecord} {refused refused' : Option OutboxRecord}
    (hγ : γ i = some (settings, .holding unmarked accepted refused)) {op : DispatchOp}
    (hallowed : (RoundPhase.holding unmarked accepted refused).Allowed uuids settings op)
    {reply : Except String Unit} (he : w.Marks times op reply w')
    (hleft : ∀ claimed ∈ left, claimed ∈ unmarked ∧
      ∀ mark ∈ op.marks, ¬claimed.mark.SameRow times mark) :
    Fenced times w' (Function.update γ i (some (settings, .holding left accepted' refused'))) := by
  have held : ∀ claimed ∈ left, Held times w.table i claimed := fun claimed hc =>
    h.held i settings unmarked accepted refused hγ claimed (hleft claimed hc).1
  rcases he with ⟨set, now, table, hset, hmark, rfl⟩ | ⟨_, rfl⟩
  · have hsets := DispatchOp.sets_availableAt hset now
    refine h.next hγ rfl ?_ (by simp) ?_ ?_
    · intro key
      rw [hmark.eq]
      exact Or.inl rfl
    · intro j claimed hji hj
      rw [hmark.eq]
      refine hj.update hmark.advanced hsets fun key row _ hr hany hlast => ?_
      obtain ⟨mark, hm, hhit⟩ := List.any_eq_true.mp hany
      have hi := h.hit hγ hallowed hm hr hhit
      exact hji (Option.some.inj (hlast.symm.trans hi))
    · intro unmarked' accepted'' refused'' hg claimed hc
      cases hg
      rw [hmark.eq]
      refine (held claimed hc).update hmark.advanced hsets fun key row hkey hr hany => ?_
      obtain ⟨mark, hm, hhit⟩ := List.any_eq_true.mp hany
      have hmarkKey := (Mark.hits_iff.mp hhit).2.1
      refine absurd ⟨?_, hkey.trans hmarkKey.symm⟩ ((hleft claimed hc).2 mark hm)
      simp [hkey]
  · refine h.next hγ rfl (fun _ => Or.inl rfl) (by simp) (fun _ _ _ hj => hj) ?_
    intro unmarked' accepted'' refused'' hg claimed hc
    cases hg
    exact held claimed hc

/-- What a round does beside its statements. -/
theorem same (h : Fenced times w γ) (hγ : γ i = some (settings, g)) (ht : w'.table = w.table)
    (hrounds : w'.rounds = w.rounds) (hfresh : g' = .fresh → g = .fresh)
    (hsub : ∀ unmarked' accepted' refused', g' = .holding unmarked' accepted' refused' →
      ∃ accepted refused, g = .holding unmarked' accepted refused) :
    Fenced times w' (Function.update γ i (some (settings, g'))) := by
  refine h.next hγ hrounds (fun key => Or.inl (by rw [ht])) hfresh
    (fun _ _ _ hj => by rwa [ht]) ?_
  intro unmarked accepted refused hg claimed hc
  obtain ⟨accepted', refused', rfl⟩ := hsub unmarked accepted refused hg
  rw [ht]
  exact h.held i settings unmarked accepted' refused' hγ claimed hc

variable (uuids) in
theorem claim (h : Fenced times w γ) (hγ : γ i = some (settings, .fresh)) {limit : Nat}
    {reply : Except String (List ClaimedRow)}
    (he : w.Claims times i limit settings.lease reply w') :
    (∀ rows, reply = .ok rows → ClaimReply uuids times rows) ∧
      ∀ rows, (reply = .ok rows ∨ rows = []) →
        Fenced times w' (Function.update γ i (some (settings, .holding rows [] none))) := by
  rcases he with ⟨span, now, keys, table, hspan, hclaim, rfl, hrows⟩ | ⟨⟨error, rfl⟩, rfl⟩
  · have hpos := interval_pos hspan (h.leases i settings (h.started i settings _ hγ))
    refine ⟨fun rows hreply => claimReply hclaim.nodup (hrows rows hreply), ?_⟩
    intro rows hreply
    refine h.next hγ rfl ?_ (by simp) (fun _ _ _ hj => hj.claim hclaim hpos) ?_
    · intro key
      rw [hclaim.eq]
      by_cases hkey : key ∈ keys
      · exact Or.inr ⟨rfl, by simp, by simp [OutboxTable.claim, hkey]⟩
      · exact Or.inl (by simp [OutboxTable.claim, hkey])
    · intro unmarked accepted refused hg claimed hc
      cases hg
      rcases hreply with hreply | rfl
      · obtain ⟨key, hkey, hclaimed⟩ := forall₂_mem_right (hrows _ hreply) hc
        exact held_of_claim hclaim hkey hclaimed
      · exact absurd hc List.not_mem_nil
  · refine ⟨by simp, ?_⟩
    intro rows hreply
    refine h.next hγ rfl (fun _ => Or.inl rfl) (by simp) (fun _ _ _ hj => hj) ?_
    intro unmarked accepted refused hg claimed hc
    cases hg
    rcases hreply with hreply | rfl
    · cases hreply
    · exact absurd hc List.not_mem_nil

/-- Each operation a round may perform. -/
theorem exec (h : Fenced times w γ) (hγ : γ i = some (settings, g)) {op : DispatchOp}
    {reply : DispatchRet op} (hallowed : g.Allowed uuids settings op)
    (he : w.exec times i op reply w') :
    (roundProtocol uuids times settings).replies g op reply ∧
      Fenced times w' (Function.update γ i (some (settings, g.next times op reply))) := by
  cases op with
  | claimDue limit lease =>
    obtain ⟨rfl, rfl⟩ := (RoundPhase.allowed_claimDue ..).mp hallowed
    obtain ⟨hreply, hnext⟩ := h.claim uuids hγ he
    cases reply with
    | error error => exact ⟨trivial, hnext [] (Or.inr rfl)⟩
    | ok rows => exact ⟨hreply rows rfl, hnext rows (Or.inl rfl)⟩
  | failUnreadable mark error =>
    obtain ⟨unmarked, accepted, rfl, _⟩ := (RoundPhase.allowed_failUnreadable ..).mp hallowed
    refine ⟨trivial, h.mark hγ hallowed he fun claimed hc => ?_⟩
    simpa [DispatchOp.marks] using mem_without.mp hc
  | setDispatched marks =>
    obtain ⟨unmarked, accepted, rfl, _⟩ := (RoundPhase.allowed_setDispatched ..).mp hallowed
    exact ⟨trivial, h.mark hγ hallowed he fun claimed hc => absurd hc List.not_mem_nil⟩
  | putBack mark error delay =>
    obtain ⟨unmarked, accepted, r, rfl, _⟩ := (RoundPhase.allowed_putBack ..).mp hallowed
    refine ⟨trivial, h.mark hγ hallowed he fun claimed hc => ?_⟩
    simpa [DispatchOp.marks] using mem_without.mp hc
  | setFailed mark error =>
    obtain ⟨unmarked, accepted, r, rfl, _⟩ := (RoundPhase.allowed_setFailed ..).mp hallowed
    refine ⟨trivial, h.mark hγ hallowed he fun claimed hc => ?_⟩
    simpa [DispatchOp.marks] using mem_without.mp hc
  | publish r deadline =>
    obtain ⟨unmarked, accepted, rfl, _⟩ := (RoundPhase.allowed_publish ..).mp hallowed
    rw [show w' = _ from he]
    refine ⟨trivial, h.same hγ rfl rfl ?_ ?_⟩
    · cases reply <;> simp [RoundPhase.next]
    · cases reply <;> simp [RoundPhase.next]
  | now =>
    rw [show w' = w from he]
    refine ⟨trivial, h.same hγ rfl rfl ?_ ?_⟩
    · cases g <;> simp [RoundPhase.next]
    · cases g <;> simp [RoundPhase.next]
  | stopping =>
    rw [show w' = w from he]
    refine ⟨trivial, h.same hγ rfl rfl ?_ ?_⟩
    · cases g <;> simp [RoundPhase.next]
    · cases g <;> simp [RoundPhase.next]

theorem unclaimed (h : w.Unclaimed) : Fenced times w fun _ => none := by
  obtain ⟨hclaims, hrounds⟩ := h
  refine ⟨by simp, ?_, ?_, by simp, ?_, by simp⟩
  · simp [hrounds]
  · simp [hclaims]
  · simp [hclaims]

theorem keeps (C : OutboxPool → System.Label Nat DispatchOp DispatchRet DispatchSettings OutboxAction → Prop) :
    Keeps (outboxSystem uuids times debug) C (roundProtocol uuids times) (fun _ => .fresh)
      (Fenced times) where
  body := outboxSystem_obeys uuids times debug
  launch h _ hl := h.launch hl
  exec h _ hγ hallowed he _ := h.exec hγ hallowed he
  leave h _ hl := by
    rw [show _ = _ from hl]
    exact h.leave
  env h ha _ := h.env ha

end Fenced

/-! ## Fencing -/

/-- In every run over any rows, a statement of a round other than its claim changes a row only if
    the round is the last one that claimed the row, as it did once: no other claim took the row after
    the one that returned the record. -/
theorem mark_fenced (uuids : UuidFormat) (times : PgTimes) (debug : String → String)
    {s s' : OutboxPool}
    (h : (outboxSystem uuids times debug).Reach OutboxState.Unclaimed (fun _ _ => True) s)
    {i : Nat} {op : DispatchOp} {reply : DispatchRet op}
    (hs : (outboxSystem uuids times debug).Step s (.exec i op reply) s')
    (hop : ∀ limit lease, op ≠ .claimDue limit lease) {key : RowKey}
    (hchange : s'.shared.table.rows key ≠ s.shared.table.rows key) :
    (s.shared.table.claims key).getLast? = some i ∧ (s.shared.table.claims key).Nodup := by
  obtain ⟨γ, settings, g, hfenced, hγ, hallowed, he⟩ :=
    h.allowed (Fenced.keeps (fun _ _ => True)) (fun _ => Fenced.unclaimed) hs
  obtain ⟨_, _, row, _, hr, _, mark, hm, hhit⟩ := OutboxState.exec_rows he hop hchange
  exact ⟨hfenced.hit hγ hallowed hm hr hhit, hfenced.once key⟩

/-! ## A row that two rounds claim -/

def basketPaid : Envelope where
  id := ⟨7⟩
  messageType := ⟨"shop.basket_paid.v1", by decide⟩
  source := ⟨"/shop", by decide⟩
  time := .fromUnixNanos 0
  subject := none
  contentType := ⟨"text/plain", by decide⟩
  dataSchema := none
  partitionKey := none
  correlation := ⟨none, none⟩
  trace := none
  extensions := Extensions.new
  data := []

/-- Its row, written at 1970-01-01. -/
def paidKey : RowKey := (0, 7)

def paidRow : Postgres.OutboxRow := .insert .rfc9562 basketPaid 0

/-- The row as a claim until `token` returns it, and its record. -/
def paidClaim (token : Int) : ClaimedRow :=
  ⟨columns .rfc9562 basketPaid, PgTimes.utc.json 0, 0, PgTimes.utc.json token⟩

def paidRecord (token : Int) : OutboxRecord :=
  ⟨basketPaid, .fromUnixNanos 0, 0, .fromUnixNanos (token * 1000)⟩

theorem utc_json {time : Int} (h : InYears time) :
    PgTimes.utc.json time = (Timestamp.fromUnixNanos (time * 1000)).toText := if_pos h

theorem record_paidClaim {token : Int} (h : InYears token) :
    record .rfc9562 (paidClaim token) = .ok (paidRecord token) := by
  have hparse : ∀ {time}, InYears time →
      Timestamp.parse (PgTimes.utc.json time) = .ok (.fromUnixNanos (time * 1000)) := by
    intro time ht
    rw [utc_json ht, Timestamp.parse_toText]
  exact record_columns _ basketPaid rfl (hparse (by decide)) (hparse h)

theorem readRows_paidClaim (debug : String → String) {token : Int} (h : InYears token) :
    readRows .rfc9562 debug [paidClaim token] = Prog.ret (.ok [paidRecord token]) := by
  simp only [readRows, record_paidClaim h]
  rfl

/-- What a round does with its claim. -/
def afterClaim (settings : DispatchSettings) (claimedAt : Nat) :
    Except StoreError (List OutboxRecord) → Dispatching Unit
  | .error _ => return ()
  | .ok records => do
    let published ← publishRecords settings claimedAt records
    if !published.isEmpty then
      let _ ← markDispatched published
      return ()
    else return ()

theorem outboxSystem_body (uuids : UuidFormat) (times : PgTimes) (debug : String → String)
    (settings : DispatchSettings) : (outboxSystem uuids times debug).body settings = (do
      let claimedAt ← Postgres.perform .now
      let claimed ← claim uuids debug settings.batchSize settings.lease
      afterClaim settings claimedAt claimed) := by
  simp only [outboxSystem, round, bind_assoc]
  refine congrArg _ (funext fun claimedAt => congrArg _ (funext fun claimed => ?_))
  cases claimed with
  | error error => rfl
  | ok records =>
    simp only [afterClaim, bind_assoc]
    refine congrArg _ (funext fun published => ?_)
    split <;> rfl

section Paid

variable {table : OutboxTable} (row : Postgres.OutboxRow) (now : Int)

/-- The row's claim by `round`. -/
theorem claimDue_paid {round limit : Nat} {span : Int} (hl : 1 ≤ limit)
    (hr : table.rows paidKey = some row) (hp : row.status = .pending) (hd : row.availableAt ≤ now)
    (hs : table.stamps paidKey < now) :
    ClaimDue round limit span now [paidKey] table
      (table.claim round [paidKey] now (now + span)) where
  nodup := List.nodup_cons.mpr ⟨List.not_mem_nil, List.nodup_nil⟩
  limit := hl
  ordered := List.pairwise_singleton ..
  due key hk := by
    rw [List.mem_singleton.mp hk]
    exact ⟨row, hr, hp, hd⟩
  advanced key _ _ hk := by
    rw [List.mem_singleton.mp (List.contains_iff_mem.mp hk)]
    exact hs
  eq := rfl

theorem markOf_paidRecord {token : Int} (h : InYears token) :
    markOf (paidRecord token) = markAt .utc paidKey token := by
  rw [markAt, utc_json h, utc_json (by decide)]
  rfl

/-- A mark of the row by the claim that leased it until `token`. -/
theorem markRows_paid {token : Int} (h : InYears token) (set : Int → Postgres.OutboxRow → Postgres.OutboxRow)
    (hr : table.rows paidKey = some row) (hs : table.stamps paidKey < now)
    (hint : (set now row).attempts ≤ max row.attempts (2 ^ 31 - 1)) :
    MarkRows .utc [markOf (paidRecord token)] set now table
      (table.update (Mark.anyHits .utc [markOf (paidRecord token)]) (set now) now) := by
  rw [markOf_paidRecord h]
  have hkey : ∀ key row, Mark.anyHits .utc [markAt .utc paidKey token] key row = true →
      key = paidKey := by
    intro key row hany
    obtain ⟨mark, hm, hhit⟩ := List.any_eq_true.mp hany
    rw [List.mem_singleton.mp hm] at hhit
    have := (Mark.hits_iff.mp hhit).2.1
    rw [key_markAt] at this
    exact (Option.some.inj this).symm
  refine ⟨?_, ?_, ?_, rfl⟩
  · intro mark hm
    rw [List.mem_singleton.mp hm, key_markAt, markAt, PgTimes.utc.cast_json]
    simp
  · intro key row' hr' hany
    rw [hkey key row' hany, hr] at hr'
    cases hr'
    exact hint
  · intro key row' _ hany
    rw [hkey key row' hany]
    exact hs

theorem rows_markRows_paid {token : Int} (h : InYears token) (set : Int → Postgres.OutboxRow → Postgres.OutboxRow)
    (hr : table.rows paidKey = some row) (hp : row.status = .pending)
    (hd : row.availableAt = token) :
    (table.update (Mark.anyHits .utc [markOf (paidRecord token)]) (set now) now).rows paidKey =
      some (set now row) := by
  have hhit : Mark.anyHits .utc [markOf (paidRecord token)] paidKey row = true := by
    refine List.any_eq_true.mpr ⟨_, List.mem_singleton.mpr rfl, Mark.hits_iff.mpr ⟨hp, ?_, ?_⟩⟩
    · rw [markOf_paidRecord h, key_markAt]
    · rw [markOf_paidRecord h, hd, markAt, PgTimes.utc.cast_json]
  exact OutboxTable.rows_update.mpr ⟨row, hr, by rw [hhit, if_pos rfl]⟩

end Paid

/-- The row's lease runs out, and another round claims it and marks it. -/
theorem reclaimed_run : ∃ s s' : OutboxPool,
    (outboxSystem .rfc9562 .utc id).Reach OutboxState.Unclaimed (fun _ _ => True) s ∧
    (outboxSystem .rfc9562 .utc id).Step s
      (.exec 1 (.setDispatched [markOf (paidRecord 60000001)]) (.ok ())) s' ∧
    s'.shared.table.rows paidKey ≠ s.shared.table.rows paidKey ∧
    s.shared.table.claims paidKey = [0, 1] := by
  let settings := DispatchSettings.default
  let start : OutboxTable :=
    ⟨fun key => if key = paidKey then some paidRow else none, fun _ => 0, fun _ => []⟩
  let first := start.claim 0 [paidKey] 1 (1 + 30000000)
  let second := first.claim 1 [paidKey] 30000001 (30000001 + 30000000)
  have hspan : interval settings.lease = some 30000000 := by decide
  have h0 : (outboxSystem .rfc9562 .utc id).Reach OutboxState.Unclaimed (fun _ _ => True)
      ⟨fun _ => none, start, fun _ => none, [], fun _ => none, fun _ => none⟩ := .init ⟨rfl, rfl⟩
  have h1 := h0.launch 0 settings rfl ⟨rfl, rfl, rfl⟩ trivial
  have h2 := h1.launch 1 settings rfl ⟨rfl, rfl, rfl⟩ trivial
  rw [outboxSystem_body] at h2
  have h3 := h2.exec 0 .now (0 : Nat) rfl rfl trivial
  have h4 := h3.exec 0 (.claimDue 100 settings.lease) (.ok [paidClaim 30000001]) rfl
    (Or.inl ⟨30000000, 1, [paidKey], first, hspan,
      claimDue_paid paidRow _ (by decide) rfl rfl (by decide) (by decide), rfl, ?rows0⟩) trivial
  have h5 := h4.exec 1 .now (0 : Nat) rfl rfl trivial
  have h6 := h5.exec 1 (.claimDue 100 settings.lease) (.ok [paidClaim 60000001]) rfl
    (Or.inl ⟨30000000, 30000001, [paidKey], second, hspan,
      claimDue_paid { paidRow with availableAt := 30000001 } _ (by decide) rfl rfl
        (by decide) (by decide), rfl, ?rows1⟩) trivial
  have h7 := h6.exec 1 .stopping false (by
    change some (System.Proc.mk settings
      (readRows .rfc9562 id [paidClaim 60000001] >>= afterClaim settings 0)) = _
    rw [readRows_paidClaim id (by decide)]
    rfl) rfl trivial
  have h8 := h7.exec 1 .now (0 : Nat) rfl rfl trivial
  have h9 := h8.exec 1 (.publish (paidRecord 60000001) _) .accepted rfl rfl trivial
  have hyears : InYears 60000001 := by decide
  let claimed := { paidRow with availableAt := 60000001 }
  have hr : second.rows paidKey = some claimed := rfl
  have hs : second.stamps paidKey < 40000000 := by decide
  have hmark := markRows_paid claimed _ hyears .setDispatched hr hs (by decide)
  have hchange := rows_markRows_paid claimed 40000000 hyears .setDispatched hr rfl rfl
  refine ⟨_, _, h9, .exec rfl (Or.inl ⟨_, _, _, rfl, hmark, rfl⟩), fun h => ?_, rfl⟩
  · cases congrArg Postgres.OutboxRow.status (Option.some.inj (hchange.symm.trans (h.trans hr)))
  all_goals
    intro rows hrows
    cases hrows
    exact .cons rfl .nil

theorem mark_fenced_reclaimed :
    ∃ s s' : OutboxPool, s'.shared.table.rows paidKey ≠ s.shared.table.rows paidKey ∧
      s.shared.table.claims paidKey = [0, 1] ∧
      (s.shared.table.claims paidKey).getLast? = some 1 := by
  obtain ⟨s, s', h, hs, hne, hclaims⟩ := reclaimed_run
  exact ⟨s, s', hne, hclaims, (mark_fenced _ _ _ h hs (by simp) hne).1⟩

end SisaMessaging.Runtime
