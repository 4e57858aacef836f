/-
  The dispatcher: the worker that publishes committed outbox rows to the broker.

  `round` is one round over the PostgreSQL outbox: claim, publish in id order, mark.
-/
import SisaMessaging.Postgres.Outbox
import SisaMessaging.Runtime.Retry

namespace SisaMessaging.Runtime

open SisaMessaging.Core SisaMessaging.Postgres SisaMessaging.Lib

/-- How the dispatcher publishes the outbox of a bus. -/
structure DispatchSettings where
  /-- How long it waits after a round that found fewer rows than a batch. -/
  pollInterval : Duration
  /-- How many rows one claim takes at most. -/
  batchSize : Nat
  /-- How long a claimed row stays with its dispatcher. -/
  lease : Duration
  /-- How many publishes a row gets, and how long a failed one waits. -/
  retry : RetryPolicy

namespace DispatchSettings

/-- Why these settings can't run: a zero would claim nothing, or claim rows it can't publish, or
    poll the database without a pause. -/
def invalid (settings : DispatchSettings) : Option String :=
  if settings.batchSize == 0 then some "\x60batch_size\x60 is 0"
  else if settings.lease.isZero then some "\x60lease\x60 is 0"
  else if settings.pollInterval.isZero then some "\x60poll_interval\x60 is 0"
  else none

/-- Rounds a second apart, 100 rows each, leased for thirty seconds, retried for about five
    minutes. -/
def default : DispatchSettings where
  pollInterval := .fromSecs 1 Duration.one_lt_secs
  batchSize := 100
  lease := .fromSecs 30 (by decide)
  retry := { RetryPolicy.default with attempts := 10 }

/-! ## Settings that the statements can bind -/

/-- The claims of these settings and the put-backs after each attempt that isn't the last bind
    durations that an `interval` holds. -/
def CanBind (settings : DispatchSettings) : Prop :=
  (interval settings.lease).isSome ∧ ∀ attempt, 1 ≤ attempt →
    settings.retry.isLast attempt = false → (interval (settings.retry.delay attempt)).isSome

/-- Whole microseconds that an `i64` holds. -/
def WholeMicros (nanos : Nat) : Prop := nanos % 1000 = 0 ∧ nanos / 1000 < 2 ^ 63

theorem isSome_interval (duration : Duration) :
    (interval duration).isSome ↔ WholeMicros duration.nanos := by
  unfold interval WholeMicros
  split
  · rename_i h
    exact iff_of_true rfl h
  · rename_i h
    exact iff_of_false (by simp) h

/-- Up to the longest delay, doubling keeps whole microseconds whole. -/
theorem wholeMicros_delays {first most rounds : Nat} (hfirst : first < most → first % 1000 = 0)
    (hlast : WholeMicros (min (first * 2 ^ rounds) most)) {fewer : Nat} (h : fewer ≤ rounds) :
    WholeMicros (min (first * 2 ^ fewer) most) := by
  have hle : first * 2 ^ fewer ≤ first * 2 ^ rounds :=
    Nat.mul_le_mul_left _ (Nat.pow_le_pow_right (by decide) h)
  rcases Nat.lt_or_ge (first * 2 ^ fewer) most with hlt | hge
  · have hwhole : first % 1000 = 0 :=
      hfirst ((Nat.le_mul_of_pos_right _ (Nat.two_pow_pos _)).trans_lt hlt)
    rw [Nat.min_eq_left (Nat.le_of_lt hlt)]
    refine ⟨by rw [Nat.mul_mod, hwhole, Nat.zero_mul, Nat.zero_mod], ?_⟩
    exact (Nat.div_le_div_right (Nat.le_min.mpr ⟨hle, Nat.le_of_lt hlt⟩)).trans_lt hlast.2
  · rw [Nat.min_eq_right (hge.trans hle)] at hlast
    rwa [Nat.min_eq_right hge]

/-- Settings can run exactly when the lease is whole microseconds, the first delay is unless the
    maximum replaces it, and the longest delay before the last attempt is. `invalid` checks none of
    this. -/
theorem canBind_iff (settings : DispatchSettings) : settings.CanBind ↔
    WholeMicros settings.lease.nanos ∧ (2 ≤ settings.retry.attempts →
      (settings.retry.firstDelay.nanos < settings.retry.maxDelay.nanos →
        settings.retry.firstDelay.nanos % 1000 = 0) ∧
      WholeMicros (min (settings.retry.firstDelay.nanos * 2 ^ (settings.retry.attempts - 2))
        settings.retry.maxDelay.nanos)) := by
  simp only [CanBind, isSome_interval, RetryPolicy.isLast, RetryPolicy.delay_nanos,
    decide_eq_false_iff_not, ge_iff_le, Nat.not_le]
  refine and_congr_right fun _ => ⟨fun h htwo => ⟨fun hlt => ?_, ?_⟩, fun h attempt hone hlt => ?_⟩
  · have hfirst := (h 1 (Nat.le_refl 1) htwo).1
    rwa [Nat.sub_self, Nat.pow_zero, Nat.mul_one, Nat.min_eq_left (Nat.le_of_lt hlt)] at hfirst
  · exact h (settings.retry.attempts - 1) (by omega) (by omega)
  · obtain ⟨hfirst, hlast⟩ := h (by omega)
    exact wholeMicros_delays hfirst hlast (by omega)

/-- A lease and a first delay of a third of a second each. -/
def thirds : DispatchSettings :=
  { default with
    lease := ⟨333333333, by decide⟩
    retry := { default.retry with firstDelay := ⟨333333333, by decide⟩ } }

theorem not_canBind_thirds : thirds.invalid = none ∧ ¬thirds.CanBind ∧
    interval thirds.lease = none ∧ thirds.retry.isLast 1 = false ∧
    interval (thirds.retry.delay 1) = none := by
  refine ⟨by decide, fun h => ?_, by decide, by decide, by decide⟩
  exact absurd h.1 (by decide)

end DispatchSettings

/-- The number of the attempt that failed: `saturating_add(1)` on a `u32`. -/
def failedAttempt (record : OutboxRecord) : Nat := min (record.attempts + 1) (2 ^ 32 - 1)

/-- After a failed publish: back with a later due time, or failed after the last attempt. -/
def putBack (settings : DispatchSettings) (record : OutboxRecord) (error : String) :
    Dispatching Unit := do
  if settings.retry.isLast (failedAttempt record) then
    let _ ← markFailed record error
    return ()
  else
    let _ ← markRetry record error (settings.retry.delay (failedAttempt record))
    return ()

/-- Whether a round is over before its next publish: the bus stops, or the lease ran out. -/
def past (settings : DispatchSettings) (claimedAt : Nat) : Dispatching Bool := do
  if ← Postgres.perform .stopping then return true
  else
    let now ← Postgres.perform .now
    return decide (settings.lease.nanos ≤ now - claimedAt)

/-- The loop of `round`: publishes the records in order, and returns the ones the broker has. -/
def publishRecords (settings : DispatchSettings) (claimedAt : Nat) :
    List OutboxRecord → Dispatching (List OutboxRecord)
  | [] => return []
  | record :: records => do
    if ← past settings claimedAt then return []
    else
      match ← Postgres.perform (.publish record (claimedAt + settings.lease.nanos)) with
      | .accepted =>
        let published ← publishRecords settings claimedAt records
        return record :: published
      | .refused error =>
        putBack settings record error.toText
        publishRecords settings claimedAt records
      | .elapsed => return []

/-- One round. True when it published a full batch, so more rows may be due. -/
def round (uuids : UuidFormat) (debug : String → String) (settings : DispatchSettings) :
    Dispatching Bool := do
  let claimedAt ← Postgres.perform .now
  match ← claim uuids debug settings.batchSize settings.lease with
  | .error _ => return false
  | .ok records =>
    let published ← publishRecords settings claimedAt records
    if !published.isEmpty then
      let _ ← markDispatched published
      return published.length == settings.batchSize
    else return published.length == settings.batchSize

end SisaMessaging.Runtime
