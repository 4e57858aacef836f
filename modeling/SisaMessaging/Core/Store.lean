/-
  The store contracts' data: durations, store errors, and an outbox row a dispatcher claimed.
-/
import Mathlib.Algebra.Group.Nat.Defs
import SisaMessaging.Core.Envelope

namespace SisaMessaging.Core

/-- `std::time::Duration`: `u64` seconds and nanoseconds below a second, as nanoseconds. -/
@[ext] structure Duration where
  nanos : Nat
  bound : nanos < 2 ^ 64 * 1000000000
  deriving DecidableEq

namespace Duration

theorem one_lt_secs : 1 < 2 ^ 64 := by decide

/-- `Duration::from_secs`, for the seconds a `u64` holds. -/
def fromSecs (seconds : Nat) (h : seconds < 2 ^ 64) : Duration where
  nanos := seconds * 1000000000
  bound := by omega

/-- `Duration::MAX`. -/
def max : Duration := ⟨2 ^ 64 * 1000000000 - 1, by decide⟩

/-- `Duration::is_zero`. -/
def isZero (duration : Duration) : Bool := duration.nanos == 0

/-- `Duration::saturating_mul`. -/
def saturatingMul (duration : Duration) (factor : Nat) : Duration where
  nanos := min (duration.nanos * factor) max.nanos
  bound := by
    have := max.bound
    omega

end Duration

/-- Why a store couldn't do what was asked: what it was doing, and the client's error as text. -/
inductive StoreError where
  | database (context source : String)
  deriving DecidableEq

/-- `Display`. -/
def StoreError.toText : StoreError → String
  | database context source => context ++ ": " ++ source

/-- An outbox row the dispatcher claimed. -/
structure OutboxRecord where
  envelope : Envelope
  /-- When the row was written, which finds its partition. -/
  createdAt : Timestamp
  /-- How many publishes of the row failed before this claim. -/
  attempts : Nat
  /-- When this claim's lease runs out, by the database's clock. -/
  leasedUntil : Timestamp

end SisaMessaging.Core
