/-
  What a round knows of the time.

  A round reads its clock before its claim and again before each publish. `clockProtocol` follows
  these readings: a publish comes right after one at which the lease, counted from before the claim,
  hadn't run out, and waits no longer than until it does.
-/
import SisaMessaging.Runtime.Dispatch

namespace SisaMessaging.Runtime

open SisaMessaging.Core SisaMessaging.Postgres SisaMessaging.Lib
open SisaMessaging.Lib.Prog (Obeys Only Protocol)

/-- A round's readings of its clock, in nanoseconds. -/
structure RoundClock where
  /-- The first one, before the claim. -/
  claimedAt : Option Nat
  /-- The last one, if nothing came after it. -/
  reading : Option Nat

namespace RoundClock

def start : RoundClock := ⟨none, none⟩

def Allowed (settings : DispatchSettings) (clock : RoundClock) : DispatchOp → Prop
  | .claimDue _ _ => ∃ claimedAt, clock.claimedAt = some claimedAt
  | .publish _ deadline => ∃ claimedAt reading, clock = ⟨some claimedAt, some reading⟩ ∧
      reading < claimedAt + settings.lease.nanos ∧ deadline = claimedAt + settings.lease.nanos
  | _ => True

def next (clock : RoundClock) : (op : DispatchOp) → DispatchRet op → RoundClock
  | .now, now => ⟨some (clock.claimedAt.getD now), some now⟩
  | _, _ => ⟨clock.claimedAt, none⟩

theorem claimedAt_next {clock : RoundClock} {claimedAt : Nat}
    (h : clock.claimedAt = some claimedAt) (op : DispatchOp) (reply : DispatchRet op) :
    (clock.next op reply).claimedAt = some claimedAt := by
  cases op with
  | now => simp [next, h]
  | _ => exact h

end RoundClock

def clockProtocol (settings : DispatchSettings) : Protocol DispatchOp DispatchRet RoundClock where
  allowed := RoundClock.Allowed settings
  replies _ _ _ := True
  next := RoundClock.next

/-! ## `round` follows it -/

def NoPublish (op : DispatchOp) : Prop := ∀ r deadline, op ≠ .publish r deadline

theorem readRows_only (uuids : UuidFormat) (debug : String → String) (rows : List ClaimedRow) :
    Only NoPublish (readRows uuids debug rows) := by
  induction rows with
  | nil => trivial
  | cons row rows ih =>
    unfold readRows
    split
    · exact ih.bind fun result => by cases result <;> trivial
    · refine ⟨by simp [NoPublish], fun reply => ?_⟩
      cases reply with
      | error error => trivial
      | ok _ => exact ih

theorem claim_only (uuids : UuidFormat) (debug : String → String) (limit : Nat) (lease : Duration) :
    Only NoPublish (claim uuids debug limit lease) := by
  refine ⟨by simp [NoPublish], fun reply => ?_⟩
  cases reply with
  | error error => trivial
  | ok rows => exact readRows_only uuids debug rows

theorem putBack_only (settings : DispatchSettings) (record : OutboxRecord) (error : String) :
    Only NoPublish (putBack settings record error) := by
  unfold putBack
  split
  · exact ⟨by simp [NoPublish], fun _ => trivial⟩
  · exact ⟨by simp [NoPublish], fun _ => trivial⟩

section Obeys

variable {settings : DispatchSettings} {claimedAt : Nat}

theorem obeys_of_only {α : Type} {p : Dispatching α} (h : Only NoPublish p) {clock : RoundClock}
    (hc : clock.claimedAt = some claimedAt) :
    Obeys (clockProtocol settings) (fun clock _ => clock.claimedAt = some claimedAt) clock p := by
  induction p generalizing clock with
  | ret a => exact hc
  | call op next ih =>
    refine ⟨?_, fun reply _ => ih reply (h.2 reply) (clock.claimedAt_next hc op reply)⟩
    cases op with
    | claimDue limit lease => exact ⟨claimedAt, hc⟩
    | publish r deadline => exact absurd rfl (h.1 r deadline)
    | _ => trivial

theorem past_clock {clock : RoundClock} (hc : clock.claimedAt = some claimedAt) :
    Obeys (clockProtocol settings) (fun clock isPast => clock.claimedAt = some claimedAt ∧
      (isPast = false → ∃ reading, clock.reading = some reading ∧
        reading < claimedAt + settings.lease.nanos)) clock (past settings claimedAt) := by
  refine ⟨trivial, fun stopping _ => ?_⟩
  cases stopping with
  | true => exact ⟨hc, fun h => nomatch h⟩
  | false =>
    refine ⟨trivial, fun now _ => ⟨?_, fun h => ⟨now, rfl, ?_⟩⟩⟩
    · exact RoundClock.claimedAt_next hc .now now
    · have hlt := of_decide_eq_false h
      omega

theorem publishRecords_clock {clock : RoundClock} (hc : clock.claimedAt = some claimedAt)
    (records : List OutboxRecord) :
    Obeys (clockProtocol settings) (fun clock _ => clock.claimedAt = some claimedAt) clock
      (publishRecords settings claimedAt records) := by
  induction records generalizing clock with
  | nil => exact hc
  | cons record records ih =>
    unfold publishRecords
    apply (past_clock hc).bind
    rintro clock isPast ⟨hc, hreading⟩
    cases isPast with
    | true => exact hc
    | false =>
      obtain ⟨reading, hr, hlt⟩ := hreading rfl
      obtain ⟨first, last⟩ := clock
      obtain rfl : first = some claimedAt := hc
      obtain rfl : last = some reading := hr
      refine ⟨⟨claimedAt, reading, rfl, hlt, rfl⟩, fun reply _ => ?_⟩
      cases reply with
      | elapsed => rfl
      | accepted => exact (ih rfl).bind fun _ _ h => h
      | refused error =>
        exact (obeys_of_only (putBack_only settings record error.toText) rfl).bind
          fun _ _ h => ih h

/-- Whatever the replies are. -/
theorem round_clock (uuids : UuidFormat) (debug : String → String) (settings : DispatchSettings) :
    Obeys (clockProtocol settings) (fun _ _ => True) .start (round uuids debug settings) := by
  refine ⟨trivial, fun claimedAt _ => ?_⟩
  have hstart : (RoundClock.start.next .now claimedAt).claimedAt = some claimedAt := rfl
  apply (obeys_of_only (claim_only uuids debug _ _) hstart).bind
  intro clock result hc
  cases result with
  | error error => trivial
  | ok records =>
    apply (publishRecords_clock hc records).bind
    intro clock published _
    split
    · exact ⟨trivial, fun _ _ => trivial⟩
    · trivial

end Obeys

end SisaMessaging.Runtime
