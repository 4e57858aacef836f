/-
  The partition contract's data: intervals of days, and the partitions a store found.
-/
import SisaMessaging.Core.Calendar

namespace SisaMessaging.Core

/-- How much time one partition of a table holds: a UTC day, an ISO 8601 week, a calendar month. -/
inductive PartitionInterval where
  | day | week | month
  deriving DecidableEq

namespace PartitionInterval

/-- The first day of the interval that holds `date`. -/
def start (interval : PartitionInterval) (date : Date) : Date :=
  match interval with
  | day => date
  | week => date.monday
  | month => date.firstOfMonth

/-- The first day after the interval that holds `date`. -/
def stop (interval : PartitionInterval) (date : Date) : Date :=
  match interval with
  | day => date.addDays 1
  | week => date.monday.addDays 7
  | month => date.firstOfNextMonth

/-- An interval ends after its days, or with the calendar. -/
theorem le_stop (interval : PartitionInterval) (date : Date) : date ≤ interval.stop date := by
  cases interval with
  | day => exact Date.le_fromDays (by omega)
  | week =>
    refine Date.le_fromDays ?_
    have hfirst := date.first
    have hlast := date.last
    simp only [Date.monday, Date.fromDays]
    omega
  | month => exact date.le_firstOfNextMonth

end PartitionInterval

/-- What happens to a partition once it is older than the retention. -/
inductive Expiry where
  | detach | drop
  deriving DecidableEq

/-- A partition the store found, with the outbox rows it still holds. -/
structure PartitionInfo where
  name : String
  /-- The first day it holds. -/
  fromDay : Date
  /-- The first day after it. -/
  toDay : Date
  pending : Nat
  failed : Nat
  deriving DecidableEq

/-- A partition with no pending or failed rows. -/
def PartitionInfo.new (name : String) (fromDay toDay : Date) : PartitionInfo :=
  ⟨name, fromDay, toDay, 0, 0⟩

/-- The partition holds the day. -/
def PartitionInfo.Holds (partition : PartitionInfo) (day : Date) : Prop :=
  partition.fromDay ≤ day ∧ day < partition.toDay

instance (partition : PartitionInfo) (day : Date) : Decidable (partition.Holds day) :=
  inferInstanceAs (Decidable (_ ∧ _))

end SisaMessaging.Core
