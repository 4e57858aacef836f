/-
  Rounds over time: no publish of a claimed row outlasts the lease of its claim.

  The database's clock is `clock`, in nanoseconds; a round's own goes at the same rate from a zero
  of its own. A statement reads a time between its start and its end, and an operation starts when
  the round's last one ended (`since`). So the lease that a round counts from before its claim runs
  out no later than the one the claim set (`OnTime.held`), and a row that a round still is to publish
  is its own (`StillHeld`).
-/
import SisaMessaging.Postgres.ClaimCall
import SisaMessaging.Runtime.Fencing
import SisaMessaging.Runtime.RoundClock

namespace SisaMessaging.Runtime

open SisaMessaging.Core SisaMessaging.Postgres SisaMessaging.Lib
open SisaMessaging.Lib.Prog (Obeys Protocol)
open SisaMessaging.Lib.System (Keeps Reach Step update_eq_some)

/-! ## The system -/

/-- The table over time. -/
structure TimedOutbox where
  table : OutboxTable
  /-- Nanoseconds since 1970, by the database's clock. -/
  clock : Int
  /-- The settings of each round that started, for good. -/
  rounds : Nat → Option DispatchSettings
  /-- The zero of a round's own clock. -/
  origin : Nat → Int
  /-- When a round's last operation ended. -/
  since : Nat → Int
  /-- The rows that a round's claim took, and until when. -/
  leases : Nat → Option (List RowKey × Int)

/-- A time of the database, in microseconds, on the clock. -/
def moment (time : Int) : Int := 1000 * time

namespace TimedOutbox

/-- A time of the database at which round `i` waited for its statement: `now()` is a whole number of
    microseconds, neither below the moment the round sent the statement nor above the clock. -/
def Within (w : TimedOutbox) (i : Nat) (now : Int) : Prop :=
  w.since i ≤ moment now ∧ moment now ≤ w.clock

/-- Round `i`'s operation is over. -/
def done (w : TimedOutbox) (i : Nat) : TimedOutbox :=
  { w with since := Function.update w.since i w.clock }

/-- A claim, or its reply is an error. -/
def Claims (times : PgTimes) (i limit : Nat) (lease : Duration)
    (reply : Except String (List ClaimedRow)) (w w' : TimedOutbox) : Prop :=
  (∃ span now locked keys, interval lease = some span ∧ w.Within i now ∧
    OldestDue w.table limit now locked keys ∧
    w' = { w with
      table := w.table.claim i keys now (now + span)
      leases := Function.update w.leases i (some (keys, now + span)) } ∧
    ∀ rows, reply = .ok rows →
      List.Forall₂ (fun key row => (w'.table.rows key).bind (claimedRow times key) = some row)
        keys rows) ∨
  ((∃ error, reply = .error error) ∧ w' = w)

/-- A mark, or its reply is an error. -/
def Marks (times : PgTimes) (i : Nat) (op : DispatchOp) (reply : Except String Unit)
    (w w' : TimedOutbox) : Prop :=
  (∃ set now, op.sets = some set ∧ w.Within i now ∧
    w' = { w with table := w.table.update (Mark.anyHits times op.marks) (set now) now }) ∨
  ((∃ error, reply = .error error) ∧ w' = w)

/-- What an operation of round `i` does before it is over. -/
def effect (times : PgTimes) (i : Nat) :
    (op : DispatchOp) → DispatchRet op → TimedOutbox → TimedOutbox → Prop
  | .claimDue limit lease, reply, w, w' => w.Claims times i limit lease reply w'
  | .failUnreadable mark error, reply, w, w' =>
    w.Marks times i (.failUnreadable mark error) reply w'
  | .setDispatched marks, reply, w, w' => w.Marks times i (.setDispatched marks) reply w'
  | .putBack mark error delay, reply, w, w' => w.Marks times i (.putBack mark error delay) reply w'
  | .setFailed mark error, reply, w, w' => w.Marks times i (.setFailed mark error) reply w'
  | .now, reading, w, w' => (reading : Int) = w.clock - w.origin i ∧ w' = w
  | .publish _ _, _, w, w' | .stopping, _, w, w' => w' = w

end TimedOutbox

inductive TimedAction where
  /-- Time passes. -/
  | tick (clock : Int)
  /-- Someone commits a new row. -/
  | write (key : RowKey) (row : Postgres.OutboxRow)
  /-- A person sets a failed row back to pending. -/
  | requeue (key : RowKey)

namespace TimedOutbox

def act : TimedAction → TimedOutbox → TimedOutbox → Prop
  | .tick clock, w, w' => w.clock ≤ clock ∧ w' = { w with clock }
  | .write key row, w, w' => w.table.rows key = none ∧ w' = { w with
      table := { w.table with rows := Function.update w.table.rows key (some row) } }
  | .requeue key, w, w' => ∃ row, w.table.rows key = some row ∧ row.status = .failed ∧
      w' = { w with table := { w.table with
        rows := Function.update w.table.rows key (some { row with status := .pending }) } }

/-- Any rows, and no round has started. -/
def Unstarted (w : TimedOutbox) : Prop := w.rounds = fun _ => none

end TimedOutbox

abbrev TimedState := System.State Nat DispatchOp DispatchRet DispatchSettings TimedOutbox

abbrev TimedLabel := System.Label Nat DispatchOp DispatchRet DispatchSettings TimedAction

/-- Any number of rounds. -/
def timedOutbox (uuids : UuidFormat) (times : PgTimes) (debug : String → String) :
    System Nat DispatchOp DispatchRet DispatchSettings TimedOutbox TimedAction where
  body settings := do
    let _ ← round uuids debug settings
    return ()
  exec i _ op reply w w' := ∃ after, w.effect times i op reply after ∧ w' = after.done i
  launch i settings w w' := w.rounds i = none ∧ settings.lease.isZero = false ∧
    ∃ origin ≤ w.clock, w' = { w with
      rounds := Function.update w.rounds i (some settings)
      origin := Function.update w.origin i origin
      since := Function.update w.since i w.clock }
  leave _ _ w w' := w' = w
  env a w w' := w.act a w'

/-- Round `i` waits on a publish of `r`, by its own clock until `deadline`. -/
def Publishes (s : TimedState) (i : Nat) (r : OutboxRecord) (deadline : Nat) : Prop :=
  ∃ settings next, s.procs i = some ⟨settings, .call (.publish r deadline) next⟩

/-- A timer fires at its deadline: time doesn't reach it while the publish is waited on. -/
def TimersFire (s : TimedState) : TimedLabel → Prop
  | .env (.tick clock) => ∀ i r deadline, Publishes s i r deadline →
      clock < s.shared.origin i + deadline
  | _ => True

/-! ## Rows that a round still is to publish -/

variable {uuids : UuidFormat} {times : PgTimes} {debug : String → String}

/-- The row is as round `i`'s claim left it, or its lease has run out. -/
def StillHeld (w : TimedOutbox) (i : Nat) (key : RowKey) (due : Int) : Prop :=
  (∃ row, w.table.rows key = some row ∧ row.availableAt = due ∧
    (w.table.claims key).getLast? = some i) ∨ moment due ≤ w.clock

/-- A claimed row that isn't marked, in a round that read `claimedAt` before its claim. -/
structure HeldRow (times : PgTimes) (w : TimedOutbox) (i : Nat) (settings : DispatchSettings)
    (clock : RoundClock) (claimed : ClaimedRow) (key : RowKey) (due : Int) : Prop where
  leased : ∃ keys, w.leases i = some (keys, due) ∧ key ∈ keys
  mark : claimed.mark = markAt times key due
  later : ∃ claimedAt, clock.claimedAt = some claimedAt ∧
    w.origin i + claimedAt + settings.lease.nanos ≤ moment due
  still : StillHeld w i key due

theorem interval_nanos {duration : Duration} {span : Int} (h : interval duration = some span) :
    (duration.nanos : Int) = moment span := by
  unfold interval at h
  split at h
  · cases h
    unfold moment
    omega
  · cases h

section Still

variable {w w' : TimedOutbox} {i j : Nat} {key : RowKey} {due : Int}

theorem StillHeld.keep (h : StillHeld w j key due) (hclock : w.clock ≤ w'.clock)
    (hrow : ∀ row, w.table.rows key = some row → row.availableAt = due →
      (w.table.claims key).getLast? = some j → StillHeld w' j key due) : StillHeld w' j key due := by
  rcases h with ⟨row, hr, hdue, hlast⟩ | hpast
  · exact hrow row hr hdue hlast
  · exact Or.inr (hpast.trans hclock)

/-- Another claim takes the row only once its lease has run out. -/
theorem StillHeld.claims (h : StillHeld w j key due) {limit : Nat} {lease : Duration}
    {reply : Except String (List ClaimedRow)} (hc : w.Claims times i limit lease reply w') :
    StillHeld w' j key due := by
  rcases hc with ⟨span, now, locked, keys, _, hwithin, htaken, rfl, _⟩ | ⟨_, rfl⟩
  · refine h.keep (Int.le_refl _) fun row hr hdue hlast => ?_
    by_cases hkey : key ∈ keys
    · obtain ⟨_, row', hr', _, hpast⟩ := htaken.due key hkey
      obtain rfl : row = row' := Option.some.inj (hr.symm.trans hr')
      refine Or.inr (Int.le_trans ?_ hwithin.2)
      unfold moment
      omega
    · refine Or.inl ⟨row, OutboxTable.rows_claim.mpr ⟨row, hr, if_neg hkey⟩, hdue, ?_⟩
      simpa [OutboxTable.claim, hkey] using hlast
  · exact h

/-- So does a mark that finds it. -/
theorem StillHeld.marks (h : StillHeld w j key due) {op : DispatchOp} {reply : Except String Unit}
    (hm : w.Marks times i op reply w')
    (hhit : ∀ row, w.table.rows key = some row → row.availableAt = due →
      (w.table.claims key).getLast? = some j → Mark.anyHits times op.marks key row = true →
      moment due ≤ w.clock) : StillHeld w' j key due := by
  rcases hm with ⟨set, now, _, _, rfl⟩ | ⟨_, rfl⟩
  · refine h.keep (Int.le_refl _) fun row hr hdue hlast => ?_
    cases hh : Mark.anyHits times op.marks key row with
    | true => exact Or.inr (hhit row hr hdue hlast hh)
    | false =>
      exact Or.inl ⟨row, OutboxTable.rows_update.mpr ⟨row, hr, by rw [hh]; rfl⟩, hdue, hlast⟩
  · exact h

/-- What a mark of a held row finds is this row, as the claim left it. -/
theorem HeldRow.hit {settings : DispatchSettings} {clock : RoundClock} {claimed : ClaimedRow}
    (h : HeldRow times w i settings clock claimed key due) {mark : Mark}
    (hf : Finds uuids mark claimed) {other : RowKey} {row : Postgres.OutboxRow}
    (hhit : mark.hits times other row = true) : other = key ∧ row.availableAt = due := by
  obtain ⟨_, hkey, hdue⟩ := Mark.hits_iff.mp hhit
  exact ⟨(hf.reads h.mark).1 other hkey, (hf.reads h.mark).2 _ hdue⟩

end Still

theorem TimedOutbox.Marks.leases {w w' : TimedOutbox} {i : Nat} {op : DispatchOp}
    {reply : Except String Unit} (h : w.Marks times i op reply w') : w'.leases = w.leases := by
  rcases h with ⟨_, _, _, _, rfl⟩ | ⟨_, rfl⟩
  · rfl
  · rfl

/-- What an effect of round `i` leaves. -/
structure Frame (w w' : TimedOutbox) (i : Nat) : Prop where
  clock : w'.clock = w.clock
  origin : w'.origin = w.origin
  since : w'.since = w.since
  rounds : w'.rounds = w.rounds
  leases : ∀ j, j ≠ i → w'.leases j = w.leases j

theorem Frame.refl (w : TimedOutbox) (i : Nat) : Frame w w i := ⟨rfl, rfl, rfl, rfl, fun _ _ => rfl⟩

theorem TimedOutbox.effect_frame {w w' : TimedOutbox} {i : Nat} {op : DispatchOp}
    {reply : DispatchRet op} (h : w.effect times i op reply w') : Frame w w' i := by
  have marks : ∀ {op : DispatchOp} {reply : Except String Unit}, w.Marks times i op reply w' →
      Frame w w' i := by
    rintro op reply (⟨set, now, _, _, rfl⟩ | ⟨_, rfl⟩)
    · exact ⟨rfl, rfl, rfl, rfl, fun _ _ => rfl⟩
    · exact .refl _ i
  cases op with
  | claimDue limit lease =>
    rcases h with ⟨span, now, locked, keys, _, _, _, rfl, _⟩ | ⟨_, rfl⟩
    · exact ⟨rfl, rfl, rfl, rfl, fun j hj => Function.update_of_ne hj ..⟩
    · exact .refl _ i
  | failUnreadable mark error => exact marks h
  | setDispatched all => exact marks h
  | putBack mark error delay => exact marks h
  | setFailed mark error => exact marks h
  | publish r deadline =>
    rw [show w' = w from h]
    exact .refl w i
  | now =>
    obtain ⟨_, rfl⟩ := h
    exact .refl _ i
  | stopping =>
    rw [show w' = w from h]
    exact .refl w i

structure OnTime (times : PgTimes) (w : TimedOutbox)
    (γ : Nat → Option (DispatchSettings × RoundPhase × RoundClock)) : Prop where
  started : ∀ i settings g, γ i = some (settings, g) → w.rounds i = some settings
  since : ∀ i settings g, γ i = some (settings, g) → w.since i ≤ w.clock
  claimedAt : ∀ i settings phase clock claimedAt, γ i = some (settings, phase, clock) →
    clock.claimedAt = some claimedAt → w.origin i + claimedAt ≤ w.since i
  reading : ∀ i settings phase clock reading, γ i = some (settings, phase, clock) →
    clock.reading = some reading → w.origin i + reading = w.since i
  held : ∀ i settings unmarked accepted refused clock,
    γ i = some (settings, .holding unmarked accepted refused, clock) →
    ∀ claimed ∈ unmarked, ∃ key due, HeldRow times w i settings clock claimed key due

namespace OnTime

variable {w w' : TimedOutbox} {γ : Nat → Option (DispatchSettings × RoundPhase × RoundClock)}
  {i : Nat} {settings : DispatchSettings} {phase : RoundPhase} {clock : RoundClock}

/-- A step of round `i`, given what it does to the rows held. -/
theorem next (h : OnTime times w γ) (hγ : γ i = some (settings, phase, clock))
    (hw : Frame w w' i)
    (hothers : ∀ j key due, j ≠ i → StillHeld w j key due → StillHeld w' j key due)
    {phase' : RoundPhase} {clock' : RoundClock}
    (hclaimedAt : ∀ claimedAt, clock'.claimedAt = some claimedAt →
      clock.claimedAt = some claimedAt ∨ w.origin i + claimedAt = w.clock)
    (hreading : ∀ reading, clock'.reading = some reading → w.origin i + reading = w.clock)
    (hown : ∀ unmarked accepted refused, phase' = .holding unmarked accepted refused →
      ∀ claimed ∈ unmarked, ∃ key due, HeldRow times w' i settings clock' claimed key due) :
    OnTime times (w'.done i) (Function.update γ i (some (settings, phase', clock'))) := by
  have hself : (w'.done i).since i = w.clock := by
    rw [← hw.clock]
    exact Function.update_self ..
  have hother : ∀ k, k ≠ i → (w'.done i).since k = w.since k := by
    intro k hk
    rw [← hw.since]
    exact Function.update_of_ne hk ..
  have horigin : (w'.done i).origin = w.origin := hw.origin
  refine ⟨fun k settings' g hk => ?_, fun k settings' g hk => ?_,
    fun k settings' phase'' clock'' claimedAt hk hc => ?_,
    fun k settings' phase'' clock'' reading hk hc => ?_,
    fun k settings' unmarked accepted refused clock'' hk claimed hm => ?_⟩
  · change w'.rounds k = _
    rw [hw.rounds]
    rcases update_eq_some.mp hk with ⟨rfl, he⟩ | ⟨_, hk⟩
    · cases he
      exact h.started k _ _ hγ
    · exact h.started k _ _ hk
  · change _ ≤ w'.clock
    rw [hw.clock]
    rcases update_eq_some.mp hk with ⟨rfl, _⟩ | ⟨hki, hk⟩
    · exact Int.le_of_eq hself
    · rw [hother k hki]
      exact h.since k _ _ hk
  · rw [horigin]
    rcases update_eq_some.mp hk with ⟨rfl, he⟩ | ⟨hki, hk⟩
    · cases he
      rw [hself]
      rcases hclaimedAt claimedAt hc with hc | hnow
      · exact (h.claimedAt k _ _ _ _ hγ hc).trans (h.since k _ _ hγ)
      · exact Int.le_of_eq hnow
    · rw [hother k hki]
      exact h.claimedAt k _ _ _ _ hk hc
  · rw [horigin]
    rcases update_eq_some.mp hk with ⟨rfl, he⟩ | ⟨hki, hk⟩
    · cases he
      rw [hself]
      exact hreading reading hc
    · rw [hother k hki]
      exact h.reading k _ _ _ _ hk hc
  · rcases update_eq_some.mp hk with ⟨rfl, he⟩ | ⟨hki, hk⟩
    · cases he
      obtain ⟨key, due, hheld⟩ := hown _ _ _ rfl claimed hm
      exact ⟨key, due, hheld.leased, hheld.mark, hheld.later, hheld.still⟩
    · obtain ⟨key, due, hheld⟩ := h.held k _ _ _ _ _ hk claimed hm
      refine ⟨key, due, ?_, hheld.mark, ?_, hothers k key due hki hheld.still⟩
      · change ∃ keys, w'.leases k = _ ∧ _
        rw [hw.leases k hki]
        exact hheld.leased
      · rw [horigin]
        exact hheld.later

/-- A mark of rows that the round holds, given that what the round still holds after it are other
    rows of it. -/
theorem mark (h : OnTime times w γ) (hγ : γ i = some (settings, phase, clock)) {op : DispatchOp}
    {reply : Except String Unit} (hallowed : phase.Allowed uuids settings op)
    (hm : w.Marks times i op reply w') {phase' : RoundPhase} {clock' : RoundClock}
    (hclock : clock' = ⟨clock.claimedAt, none⟩)
    (hleft : ∀ unmarked accepted refused, phase' = .holding unmarked accepted refused →
      ∀ claimed ∈ unmarked, (∃ all accepted refused, phase = .holding all accepted refused ∧
        claimed ∈ all) ∧ ∀ mark ∈ op.marks, ¬claimed.mark.SameRow times mark)
    (hframe : Frame w w' i) :
    OnTime times (w'.done i) (Function.update γ i (some (settings, phase', clock'))) := by
  subst hclock
  -- A mark finds only rows that the round holds.
  have found : ∀ key row, Mark.anyHits times op.marks key row = true → ∃ due,
      row.availableAt = due ∧ StillHeld w i key due := by
    intro key row hany
    obtain ⟨mark, hmem, hhit⟩ := List.any_eq_true.mp hany
    obtain ⟨unmarked, accepted, refused, rfl, claimed, hc, hfinds⟩ := RoundPhase.finds hallowed hmem
    obtain ⟨key', due, hheld⟩ := h.held i _ _ _ _ _ hγ claimed hc
    obtain ⟨rfl, hdue⟩ := hheld.hit hfinds hhit
    exact ⟨due, hdue, hheld.still⟩
  refine h.next hγ hframe (fun j key due hji hj => hj.marks hm ?_)
    (fun claimedAt hc => Or.inl hc) (fun reading hc => nomatch hc) ?_
  · intro row hr hdue hlast hany
    obtain ⟨due', hdue', hstill⟩ := found key row hany
    obtain rfl : due = due' := hdue.symm.trans hdue'
    rcases hstill with ⟨_, _, _, hlast'⟩ | hpast
    · rw [hlast] at hlast'
      exact absurd (Option.some.inj hlast') hji
    · exact hpast
  · intro unmarked accepted refused hg claimed hc
    obtain ⟨⟨all, accepted', refused', rfl, hall⟩, hother⟩ := hleft _ _ _ hg claimed hc
    obtain ⟨key, due, hheld⟩ := h.held i _ _ _ _ _ hγ claimed hall
    refine ⟨key, due, ?_, hheld.mark, ?_, hheld.still.marks hm ?_⟩
    · rw [hm.leases]
      exact hheld.leased
    · rw [hframe.origin]
      exact hheld.later
    · intro row _ _ _ hany
      obtain ⟨mark, hmem, hhit⟩ := List.any_eq_true.mp hany
      have hkey := (Mark.hits_iff.mp hhit).2.1
      refine absurd ⟨?_, ?_⟩ (hother mark hmem)
      · rw [hheld.mark, key_markAt]
        simp
      · rw [hheld.mark, key_markAt, hkey]

variable (uuids) in
theorem claim (h : OnTime times w γ) (hγ : γ i = some (settings, .fresh, clock)) {claimedAt : Nat}
    (hc : clock.claimedAt = some claimedAt) {limit : Nat} {reply : Except String (List ClaimedRow)}
    (he : w.Claims times i limit settings.lease reply w') (hframe : Frame w w' i) :
    (∀ rows, reply = .ok rows → ClaimReply uuids times rows) ∧
      ∀ rows, (reply = .ok rows ∨ rows = []) → OnTime times (w'.done i)
        (Function.update γ i (some (settings, .holding rows [] none, ⟨clock.claimedAt, none⟩))) := by
  have hstart := h.claimedAt i _ _ _ _ hγ hc
  refine ⟨?_, fun rows hreply => h.next hγ hframe (fun j key due _ hj => hj.claims he)
    (fun claimedAt hc => Or.inl hc) (fun reading hc => nomatch hc) ?_⟩
  · intro rows hreply
    rcases he with ⟨_, _, _, keys, _, _, hdue, _, hrows⟩ | ⟨⟨error, rfl⟩, _⟩
    · exact claimReply hdue.nodup (hrows rows hreply)
    · cases hreply
  · intro unmarked accepted refused hg claimed hm
    cases hg
    rcases hreply with rfl | rfl
    · rcases he with ⟨span, now, _, keys, hspan, hwithin, _, rfl, hrows⟩ | ⟨⟨_, herror⟩, _⟩
      · obtain ⟨key, hkey, hclaimed⟩ := forall₂_mem_right (hrows _ rfl) hm
        obtain ⟨row, hr, hclaimed⟩ := Option.bind_eq_some_iff.mp hclaimed
        obtain ⟨before, _, hrow⟩ := OutboxTable.rows_claim.mp hr
        rw [if_pos hkey] at hrow
        subst hrow
        refine ⟨key, now + span, ⟨keys, Function.update_self .., hkey⟩, (claimedRow_eq hclaimed).1,
          ⟨claimedAt, hc, ?_⟩, Or.inl ⟨_, hr, rfl, ?_⟩⟩
        · have hlease := interval_nanos hspan
          have hstarted := hwithin.1
          unfold moment at hlease hstarted ⊢
          dsimp only
          omega
        · simp [OutboxTable.claim, hkey]
      · cases herror
    · exact absurd hm List.not_mem_nil

/-- What a round does beside its statements. -/
theorem same (h : OnTime times w γ) (hγ : γ i = some (settings, phase, clock))
    {phase' : RoundPhase} {clock' : RoundClock}
    (hclaimedAt : ∀ claimedAt, clock'.claimedAt = some claimedAt →
      clock.claimedAt = some claimedAt ∨ w.origin i + claimedAt = w.clock)
    (hkept : ∀ claimedAt, clock.claimedAt = some claimedAt → clock'.claimedAt = some claimedAt)
    (hreading : ∀ reading, clock'.reading = some reading → w.origin i + reading = w.clock)
    (hsub : ∀ unmarked accepted' refused', phase' = .holding unmarked accepted' refused' →
      ∃ accepted refused, phase = .holding unmarked accepted refused) :
    OnTime times (w.done i) (Function.update γ i (some (settings, phase', clock'))) := by
  refine h.next hγ (.refl w i) (fun _ _ _ _ hj => hj) hclaimedAt hreading ?_
  intro unmarked accepted refused hg claimed hm
  obtain ⟨accepted', refused', rfl⟩ := hsub unmarked accepted refused hg
  obtain ⟨key, due, hheld⟩ := h.held i _ _ _ _ _ hγ claimed hm
  obtain ⟨claimedAt, hc, hlater⟩ := hheld.later
  exact ⟨key, due, hheld.leased, hheld.mark, ⟨claimedAt, hkept claimedAt hc, hlater⟩, hheld.still⟩

/-- What a round holds after it marked a row are other rows. -/
theorem left_without {mark : Mark} {op : DispatchOp} (hop : op.marks = [mark])
    {unmarked : List ClaimedRow} {accepted : List OutboxRecord} {refused : Option OutboxRecord} :
    ∀ left accepted' refused', RoundPhase.holding (RoundPhase.without times mark unmarked) accepted
        none = .holding left accepted' refused' →
      ∀ claimed ∈ left, (∃ all accepted' refused', RoundPhase.holding unmarked accepted refused =
        .holding all accepted' refused' ∧ claimed ∈ all) ∧
        ∀ mark ∈ op.marks, ¬claimed.mark.SameRow times mark := by
  intro left accepted' refused' hg claimed hm
  cases hg
  obtain ⟨hin, hne⟩ := mem_without.mp hm
  exact ⟨⟨_, _, _, rfl, hin⟩, by simpa [hop] using hne⟩

/-- Each operation a round may perform. -/
theorem exec (h : OnTime times w γ) (hγ : γ i = some (settings, phase, clock)) {op : DispatchOp}
    {reply : DispatchRet op} (hallowed : phase.Allowed uuids settings op)
    (htime : clock.Allowed settings op) (he : w.effect times i op reply w') :
    (roundProtocol uuids times settings).replies phase op reply ∧
      OnTime times (w'.done i) (Function.update γ i
        (some (settings, phase.next times op reply, clock.next op reply))) := by
  have hframe := TimedOutbox.effect_frame he
  cases op with
  | claimDue limit lease =>
    obtain ⟨rfl, rfl⟩ := (RoundPhase.allowed_claimDue ..).mp hallowed
    obtain ⟨claimedAt, hc⟩ := htime
    obtain ⟨hreply, hnext⟩ := h.claim uuids hγ hc he hframe
    cases reply with
    | error error => exact ⟨trivial, hnext [] (Or.inr rfl)⟩
    | ok rows => exact ⟨hreply rows rfl, hnext rows (Or.inl rfl)⟩
  | failUnreadable mark error =>
    obtain ⟨unmarked, accepted, rfl, _⟩ := (RoundPhase.allowed_failUnreadable ..).mp hallowed
    exact ⟨trivial, h.mark hγ hallowed he rfl (left_without rfl) hframe⟩
  | setDispatched marks =>
    obtain ⟨unmarked, accepted, rfl, _⟩ := (RoundPhase.allowed_setDispatched ..).mp hallowed
    refine ⟨trivial, h.mark hγ hallowed he rfl (fun _ _ _ hg claimed hm => ?_) hframe⟩
    cases hg
    exact absurd hm List.not_mem_nil
  | putBack mark error delay =>
    obtain ⟨unmarked, accepted, r, rfl, _⟩ := (RoundPhase.allowed_putBack ..).mp hallowed
    exact ⟨trivial, h.mark hγ hallowed he rfl (left_without rfl) hframe⟩
  | setFailed mark error =>
    obtain ⟨unmarked, accepted, r, rfl, _⟩ := (RoundPhase.allowed_setFailed ..).mp hallowed
    exact ⟨trivial, h.mark hγ hallowed he rfl (left_without rfl) hframe⟩
  | publish r deadline =>
    obtain ⟨unmarked, accepted, rfl, _⟩ := (RoundPhase.allowed_publish ..).mp hallowed
    rw [show w' = w from he]
    refine ⟨trivial, h.same hγ (fun _ hc => Or.inl hc) (fun _ hc => hc) (fun _ hc => by cases hc) ?_⟩
    cases reply <;> simp [RoundPhase.next]
  | now =>
    obtain ⟨hreading, rfl⟩ := he
    have hnow : w'.origin i + ((reply : Nat) : Int) = w'.clock := by omega
    refine ⟨trivial, h.same hγ (fun claimedAt hc => ?_) (fun claimedAt hc => ?_)
      (fun reading hc => ?_) ?_⟩
    · cases hfirst : clock.claimedAt with
      | none =>
        simp only [RoundClock.next, hfirst, Option.getD_none, Option.some.injEq] at hc
        exact Or.inr (hc ▸ hnow)
      | some first =>
        rw [clock.claimedAt_next hfirst] at hc
        exact Or.inl hc
    · exact clock.claimedAt_next hc .now reply
    · cases hc
      exact hnow
    · cases phase <;> simp [RoundPhase.next]
  | stopping =>
    rw [show w' = w from he]
    refine ⟨trivial, h.same hγ (fun _ hc => Or.inl hc) (fun _ hc => hc) (fun _ hc => by cases hc) ?_⟩
    cases phase <;> simp [RoundPhase.next]

theorem launch (h : OnTime times w γ)
    (hl : (timedOutbox uuids times debug).launch i settings w w') :
    OnTime times w' (Function.update γ i (some (settings, .fresh, .start))) := by
  obtain ⟨_, _, origin, _, rfl⟩ := hl
  refine ⟨fun k settings' g hk => ?_, fun k settings' g hk => ?_,
    fun k settings' phase clock claimedAt hk hc => ?_,
    fun k settings' phase clock reading hk hc => ?_,
    fun k settings' unmarked accepted refused clock hk claimed hm => ?_⟩
  · rcases update_eq_some.mp hk with ⟨rfl, he⟩ | ⟨hki, hk⟩
    · cases he
      exact Function.update_self ..
    · exact (Function.update_of_ne hki ..).trans (h.started k _ _ hk)
  · dsimp only
    rcases update_eq_some.mp hk with ⟨rfl, _⟩ | ⟨hki, hk⟩
    · exact Int.le_of_eq (Function.update_self ..)
    · rw [Function.update_of_ne hki]
      exact h.since k _ _ hk
  · dsimp only
    rcases update_eq_some.mp hk with ⟨rfl, he⟩ | ⟨hki, hk⟩
    · cases he
      cases hc
    · rw [Function.update_of_ne hki, Function.update_of_ne hki]
      exact h.claimedAt k _ _ _ _ hk hc
  · dsimp only
    rcases update_eq_some.mp hk with ⟨rfl, he⟩ | ⟨hki, hk⟩
    · cases he
      cases hc
    · rw [Function.update_of_ne hki, Function.update_of_ne hki]
      exact h.reading k _ _ _ _ hk hc
  · rcases update_eq_some.mp hk with ⟨_, he⟩ | ⟨hki, hk⟩
    · cases he
    · obtain ⟨key, due, hheld⟩ := h.held k _ _ _ _ _ hk claimed hm
      refine ⟨key, due, hheld.leased, hheld.mark, ?_, hheld.still⟩
      dsimp only
      rw [Function.update_of_ne hki]
      exact hheld.later

theorem leave (h : OnTime times w γ) : OnTime times w (Function.update γ i none) := by
  have hsome : ∀ {k q}, Function.update γ i none k = some q → γ k = some q := by
    intro k q hk
    rcases update_eq_some.mp hk with ⟨_, hk⟩ | ⟨_, hk⟩
    · cases hk
    · exact hk
  exact ⟨fun k _ _ hk => h.started k _ _ (hsome hk), fun k _ _ hk => h.since k _ _ (hsome hk),
    fun k _ _ _ _ hk => h.claimedAt k _ _ _ _ (hsome hk),
    fun k _ _ _ _ hk => h.reading k _ _ _ _ (hsome hk),
    fun k _ _ _ _ _ hk => h.held k _ _ _ _ _ (hsome hk)⟩

/-- Time, and what others do to the rows. -/
theorem frame (h : OnTime times w γ) {table : OutboxTable} {later : Int} (hlater : w.clock ≤ later)
    (hclaims : table.claims = w.table.claims)
    (hrows : ∀ key row, w.table.rows key = some row → ∃ row', table.rows key = some row' ∧
      row'.availableAt = row.availableAt) :
    OnTime times { w with table, clock := later } γ := by
  refine ⟨h.started, fun k _ _ hk => (h.since k _ _ hk).trans hlater, h.claimedAt, h.reading, ?_⟩
  intro k settings unmarked accepted refused clock hk claimed hm
  obtain ⟨key, due, hheld⟩ := h.held k _ _ _ _ _ hk claimed hm
  refine ⟨key, due, hheld.leased, hheld.mark, hheld.later, hheld.still.keep hlater ?_⟩
  intro row hr hdue hlast
  obtain ⟨row', hr', hdue'⟩ := hrows key row hr
  exact Or.inl ⟨row', hr', hdue'.trans hdue, by rwa [hclaims]⟩

theorem env (h : OnTime times w γ) {a : TimedAction} (ha : w.act a w') : OnTime times w' γ := by
  cases a with
  | tick clock =>
    obtain ⟨hlater, rfl⟩ := ha
    exact h.frame hlater rfl fun _ row hr => ⟨row, hr, rfl⟩
  | write key row =>
    obtain ⟨hnone, rfl⟩ := ha
    refine h.frame (Int.le_refl _) rfl fun other row' hr => ⟨row', ?_, rfl⟩
    have hne : other ≠ key := by
      rintro rfl
      rw [hnone] at hr
      cases hr
    exact (Function.update_of_ne hne ..).trans hr
  | requeue key =>
    obtain ⟨row, hrow, _, rfl⟩ := ha
    refine h.frame (Int.le_refl _) rfl fun other row' hr => ?_
    by_cases hkey : other = key
    · subst hkey
      obtain rfl : row = row' := Option.some.inj (hrow.symm.trans hr)
      exact ⟨_, Function.update_self .., rfl⟩
    · exact ⟨row', (Function.update_of_ne hkey ..).trans hr, rfl⟩

theorem unstarted : OnTime times w fun _ => none :=
  ⟨by simp, by simp, by simp, by simp, by simp⟩

theorem keeps (uuids : UuidFormat) (times : PgTimes) (debug : String → String)
    (C : TimedState → TimedLabel → Prop) :
    Keeps (timedOutbox uuids times debug) C
      (fun settings => (roundProtocol uuids times settings).both (clockProtocol settings))
      (fun _ => (.fresh, .start)) (OnTime times) where
  body settings := ((round_obeys debug settings).both (round_clock uuids debug settings)).bind
    fun _ _ _ => trivial
  launch h _ hl := h.launch hl
  exec {s sh' γ i settings rest g op reply} h _ hγ hallowed he _ := by
    obtain ⟨phase, clock⟩ := g
    obtain ⟨after, heffect, rfl⟩ := he
    obtain ⟨hreply, hnext⟩ := h.exec hγ hallowed.1 hallowed.2 heffect
    exact ⟨⟨hreply, trivial⟩, hnext⟩
  leave h _ hl := by
    rw [show _ = _ from hl]
    exact h.leave
  env h ha _ := h.env ha

end OnTime

/-! ## Publishes -/

/-- Round `i` waits on a publish of the row `key`, which its claim leased until `due`. -/
structure PublishesRow (uuids : UuidFormat) (times : PgTimes) (s : TimedState) (i : Nat)
    (key : RowKey) (due : Int) (deadline : Nat) : Prop where
  leased : ∃ keys, s.shared.leases i = some (keys, due) ∧ key ∈ keys
  waits : ∃ claimed r, claimed.mark = markAt times key due ∧ record uuids claimed = .ok r ∧
    Publishes s i r deadline

/-- The wait started before the lease runs out, its timer fires by then, and no later claim has the
    row. -/
structure UnderLease (s : TimedState) (i : Nat) (key : RowKey) (due : Int) (deadline : Nat) :
    Prop where
  start : s.shared.since i < s.shared.origin i + deadline
  timer : s.shared.origin i + deadline ≤ moment due
  waits : s.shared.clock < s.shared.origin i + deadline
  last : (s.shared.table.claims key).getLast? = some i

section Run

variable {C : TimedState → TimedLabel → Prop} {s : TimedState}

/-- A publish that is waited on is one of a row that the round holds. -/
theorem publishes_held (h : (timedOutbox uuids times debug).Reach TimedOutbox.Unstarted C s)
    {i : Nat} {r : OutboxRecord} {deadline : Nat} (hp : Publishes s i r deadline) :
    s.shared.since i ≤ s.shared.clock ∧ s.shared.since i < s.shared.origin i + deadline ∧
      ∃ settings clock claimed key due, record uuids claimed = .ok r ∧
        HeldRow times s.shared i settings clock claimed key due ∧
        s.shared.origin i + deadline ≤ moment due := by
  obtain ⟨settings, next, hproc⟩ := hp
  obtain ⟨γ, htracked, hI⟩ := h.tracked (OnTime.keeps uuids times debug C) fun _ _ =>
    OnTime.unstarted
  have hti := htracked i
  rw [hproc] at hti
  obtain ⟨⟨phase, clock⟩, hγ, ⟨hphase, hclock⟩, _⟩ := System.tracked_some hti
  obtain ⟨unmarked, accepted, hholding, claimed, hclaimed, hrecord⟩ :=
    (RoundPhase.allowed_publish ..).mp hphase
  obtain ⟨claimedAt, reading, hread, hlt, hdeadline⟩ := hclock
  dsimp only at hholding hread hγ hlt hdeadline
  subst hholding hread
  obtain ⟨key, due, hheld⟩ := hI.held i _ _ _ _ _ hγ claimed hclaimed
  obtain ⟨first, hfirst, hlater⟩ := hheld.later
  cases hfirst
  have hreading := hI.reading i _ _ _ _ hγ rfl
  refine ⟨hI.since i _ _ hγ, ?_, _, _, claimed, key, due, hrecord, hheld, ?_⟩
  · omega
  · omega

/-- Time doesn't reach the deadline of a publish that is waited on. -/
theorem publishes_clock
    (h : (timedOutbox uuids times debug).Reach TimedOutbox.Unstarted TimersFire s) {i : Nat}
    {r : OutboxRecord} {deadline : Nat} (hp : Publishes s i r deadline) :
    s.shared.clock < s.shared.origin i + deadline := by
  induction h with
  | init =>
    obtain ⟨_, _, hproc⟩ := hp
    cases hproc
  | @step s l s' h hs hc ih =>
    obtain ⟨_, hstart, _⟩ := publishes_held (.step h hs hc) hp
    obtain ⟨settings, next, hproc⟩ := hp
    cases hs with
    | @launch k job sh hn hl =>
      obtain ⟨_, _, origin, _, rfl⟩ := hl
      dsimp only at hstart ⊢
      rcases update_eq_some.mp hproc with ⟨rfl, _⟩ | ⟨hik, hproc⟩
      · rw [Function.update_self] at hstart
        exact hstart
      · rw [Function.update_of_ne hik]
        exact ih ⟨settings, next, hproc⟩
    | @exec k job op rest reply sh hpk he =>
      obtain ⟨after, heffect, rfl⟩ := he
      have hframe := TimedOutbox.effect_frame heffect
      dsimp only [TimedOutbox.done] at hstart ⊢
      rcases update_eq_some.mp hproc with ⟨rfl, _⟩ | ⟨_, hproc⟩
      · rw [Function.update_self] at hstart
        exact hstart
      · rw [hframe.clock, hframe.origin]
        exact ih ⟨settings, next, hproc⟩
    | @leave k p sh hpk hl =>
      obtain rfl : sh = s.shared := hl
      rcases update_eq_some.mp hproc with ⟨_, hnone⟩ | ⟨_, hproc⟩
      · cases hnone
      · exact ih ⟨settings, next, hproc⟩
    | @env a sh he =>
      have hwaits : Publishes s i r deadline := ⟨settings, next, hproc⟩
      cases a with
      | tick clock =>
        obtain ⟨_, rfl⟩ := he
        exact hc i r deadline hwaits
      | write key row =>
        obtain ⟨_, rfl⟩ := he
        exact ih hwaits
      | requeue key =>
        obtain ⟨_, _, _, rfl⟩ := he
        exact ih hwaits

/-- Two claimed rows of one claim are of one record only if they are one row, when different times
    are written differently. -/
theorem key_eq {claimed other : ClaimedRow} {r : OutboxRecord} {key key' : RowKey} {due : Int}
    (hinstant : ∀ time time' timestamp, Timestamp.parse (times.json time) = .ok timestamp →
      Timestamp.parse (times.json time') = .ok timestamp → time = time')
    (hmark : claimed.mark = markAt times key due) (hr : record uuids claimed = .ok r)
    (hmark' : other.mark = markAt times key' due) (hr' : record uuids other = .ok r) :
    key = key' := by
  simp only [ClaimedRow.mark, markAt, Mark.mk.injEq] at hmark hmark'
  obtain ⟨hid, hcreated, _⟩ := record_eq_ok hr
  obtain ⟨hid', hcreated', _⟩ := record_eq_ok hr'
  rw [hmark.1] at hcreated
  rw [hmark'.1] at hcreated'
  refine Prod.ext (hinstant _ _ _ hcreated hcreated') ?_
  rw [← hmark.2.1, ← hmark'.2.1, ← hid, ← hid']

end Run

/-- In every run of rounds over one table, with clocks that go at one rate, timers that fire at
    their deadline and a database whose `now()` isn't below the moment its statement was sent
    (`Within`): a publish is one of a claimed row, it is waited on only before the due time that the
    claim set, and while it is, no later claim has the row. So no two rounds wait on publishes of one
    row. -/
theorem publish_under_lease (uuids : UuidFormat) (times : PgTimes) (debug : String → String)
    (hinstant : ∀ time time' timestamp, Timestamp.parse (times.json time) = .ok timestamp →
      Timestamp.parse (times.json time') = .ok timestamp → time = time')
    {s : TimedState}
    (h : (timedOutbox uuids times debug).Reach TimedOutbox.Unstarted TimersFire s) :
    (∀ i r deadline, Publishes s i r deadline →
      ∃ key due, PublishesRow uuids times s i key due deadline) ∧
    (∀ i key due deadline, PublishesRow uuids times s i key due deadline →
      UnderLease s i key due deadline) ∧
    ∀ i j key due due' deadline deadline', PublishesRow uuids times s i key due deadline →
      PublishesRow uuids times s j key due' deadline' → i = j := by
  have under : ∀ i key due deadline, PublishesRow uuids times s i key due deadline →
      UnderLease s i key due deadline := by
    rintro i key due deadline ⟨⟨keys, hleased, hkey⟩, claimed, r, hmark, hrecord, hp⟩
    obtain ⟨_, hstart, _, _, other, key', due', hrecord', hheld, htimer⟩ := publishes_held h hp
    obtain ⟨keys', hleased', _⟩ := hheld.leased
    obtain ⟨rfl, rfl⟩ : keys = keys' ∧ due = due' := by
      simpa using hleased.symm.trans hleased'
    obtain rfl := key_eq hinstant hmark hrecord hheld.mark hrecord'
    have hbefore := publishes_clock h hp
    refine ⟨hstart, htimer, hbefore, ?_⟩
    rcases hheld.still with ⟨_, _, _, hlast⟩ | hpast
    · exact hlast
    · omega
  refine ⟨fun i r deadline hp => ?_, under, ?_⟩
  · obtain ⟨_, _, _, _, claimed, key, due, hrecord, hheld, _⟩ := publishes_held h hp
    exact ⟨key, due, hheld.leased, claimed, r, hheld.mark, hrecord, hp⟩
  · intro i j key due due' deadline deadline' hi hj
    have hlast := (under i key due deadline hi).last
    rw [(under j key due' deadline' hj).last] at hlast
    exact (Option.some.inj hlast).symm

/-! ## A publish under its lease -/

theorem utc_instant (time time' : Int) (timestamp : Timestamp)
    (h : Timestamp.parse (PgTimes.utc.json time) = .ok timestamp)
    (h' : Timestamp.parse (PgTimes.utc.json time') = .ok timestamp) : time = time' := by
  have read : ∀ time, Timestamp.parse (PgTimes.utcJson time) = .ok timestamp →
      timestamp.unixNanos = time * 1000 := by
    intro time h
    rcases PgTimes.utcJson_cases time with ⟨hyears, hparse⟩ | ⟨_, error, hparse⟩
    · rw [h] at hparse
      cases hparse
      exact hyears.unixNanos
    · rw [h] at hparse
      cases hparse
  have := (read time h).symm.trans (read time' h')
  omega

theorem timedOutbox_body (uuids : UuidFormat) (times : PgTimes) (debug : String → String)
    (settings : DispatchSettings) : (timedOutbox uuids times debug).body settings = (do
      let claimedAt ← Postgres.perform .now
      let claimed ← claim uuids debug settings.batchSize settings.lease
      afterClaim settings claimedAt claimed) :=
  outboxSystem_body uuids times debug settings

/-- Round 0 claims the row at 1 and publishes it, by its clock from 1000 on. -/
theorem publishing_run : ∃ s : TimedState,
    (timedOutbox .rfc9562 .utc id).Reach TimedOutbox.Unstarted TimersFire s ∧
    PublishesRow .rfc9562 .utc s 0 paidKey 30000001
      (1000 + DispatchSettings.default.lease.nanos) := by
  let settings := DispatchSettings.default
  let start : OutboxTable :=
    ⟨fun key => if key = paidKey then some paidRow else none, fun _ => 0, fun _ => []⟩
  let taken := start.claim 0 [paidKey] 1 (1 + 30000000)
  have hspan : interval settings.lease = some 30000000 := by decide
  have h0 : (timedOutbox .rfc9562 .utc id).Reach TimedOutbox.Unstarted TimersFire
      ⟨fun _ => none, start, 1000, fun _ => none, fun _ => 0, fun _ => 0, fun _ => none⟩ := .init rfl
  have h1 := h0.launch 0 settings rfl ⟨rfl, rfl, 0, by decide, rfl⟩ trivial
  rw [timedOutbox_body] at h1
  have h2 := h1.exec 0 .now (1000 : Nat) rfl ⟨_, ⟨rfl, rfl⟩, rfl⟩ trivial
  have h3 := h2.exec 0 (.claimDue 100 settings.lease) (.ok [paidClaim 30000001]) rfl
    ⟨_, Or.inl ⟨30000000, 1, fun _ => False, [paidKey], hspan, ⟨by decide, by decide⟩, ?due, rfl,
      ?rows⟩, rfl⟩ trivial
  have h4 := h3.exec 0 .stopping false (by
    change some (System.Proc.mk settings
      (readRows .rfc9562 id [paidClaim 30000001] >>= afterClaim settings 1000)) = _
    rw [readRows_paidClaim id (by decide)]
    rfl) ⟨_, rfl, rfl⟩ trivial
  have h5 := h4.exec 0 .now (1000 : Nat) rfl ⟨_, ⟨rfl, rfl⟩, rfl⟩ trivial
  refine ⟨_, h5, ⟨⟨[paidKey], rfl, List.mem_cons_self⟩, paidClaim 30000001, paidRecord 30000001,
    rfl, record_paidClaim (by decide), settings, _, rfl⟩⟩
  case due =>
    refine ⟨List.pairwise_singleton _ _, by decide, List.pairwise_singleton _ _, ?_, ?_⟩
    · intro key hkey
      rw [List.mem_singleton.mp hkey]
      exact ⟨not_false, paidRow, rfl, rfl, by decide⟩
    · intro key row hr _ _ _ hkey
      have hne : key ≠ paidKey := fun h => hkey (List.mem_singleton.mpr h)
      have hr : (if key = paidKey then some paidRow else none) = some row := hr
      rw [if_neg hne] at hr
      cases hr
  case rows =>
    intro rows hrows
    cases hrows
    exact .cons rfl .nil

theorem publish_under_lease_run : ∃ s : TimedState, ∃ deadline,
    PublishesRow .rfc9562 .utc s 0 paidKey 30000001 deadline ∧
    UnderLease s 0 paidKey 30000001 deadline := by
  obtain ⟨s, h, hp⟩ := publishing_run
  exact ⟨s, _, hp, (publish_under_lease .rfc9562 .utc id utc_instant h).2.1 _ _ _ _ hp⟩

end SisaMessaging.Runtime
