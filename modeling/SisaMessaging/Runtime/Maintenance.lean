/-
  The partition maintenance worker: partitions ahead, and the retention.

  `maintain` is one run over the partitions of a PostgreSQL table.
-/
import SisaMessaging.Postgres.Partitions

namespace SisaMessaging.Runtime

open SisaMessaging.Core SisaMessaging.Postgres.Partitions SisaMessaging.Lib

/-- How the bus keeps the partitions of one table. -/
structure PartitionSettings where
  /-- How much time one new partition holds. -/
  interval : PartitionInterval
  /-- How many partitions exist after the current one. -/
  ahead : Nat
  /-- After how many days a partition expires, if one does. -/
  retentionDays : Option Nat
  onExpiry : Expiry

/-- A partition a day, 7 ahead, none expired. -/
def PartitionSettings.default : PartitionSettings := ⟨.day, 7, none, .detach⟩

/-- How many partitions a run makes sure of: `saturating_add(1)` on a `u32`. -/
def PartitionSettings.count (settings : PartitionSettings) : Nat :=
  min (settings.ahead + 1) (2 ^ 32 - 1)

/-- The loop over the partitions past the retention. One with pending or failed rows is kept. -/
def expireAll (mode : Expiry) : List PartitionInfo → Maintaining Unit
  | [] => return ()
  | partition :: rest => do
    if 0 < partition.pending ∨ 0 < partition.failed then expireAll mode rest
    else
      let _ ← expire partition mode
      expireAll mode rest

/-- One run, under the store's lock: partitions ahead, then the retention. -/
def maintain (table : Table) (debug : String → String) (settings : PartitionSettings)
    (today : Date) : Maintaining (Except StoreError Unit) := do
  match ← tryLock with
  | .error error => return .error error
  | .ok false => return .ok ()
  | .ok true =>
    let _ ← ensurePartitions table debug settings.interval today settings.count
    match ← defaultRows with
    | .error error => return .error error
    | .ok _ =>
      match settings.retentionDays with
      | none => return .ok ()
      | some days =>
        match ← expirable table debug (today.addDays (-days)) with
        | .error error => return .error error
        | .ok partitions =>
          expireAll settings.onExpiry partitions
          return .ok ()

end SisaMessaging.Runtime
