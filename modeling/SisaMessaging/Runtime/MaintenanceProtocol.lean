/-
  The protocol of a maintenance run.

  `MaintenancePhase` keeps what a run knows of the partitions: its last listing of them, and the
  ones it counted no pending or failed rows in since. `maintenanceProtocol` lets it expire only such
  a one, past the retention by the listing, and `maintain_obeys` says that `maintain` follows it.
-/
import SisaMessaging.Runtime.Maintenance

namespace SisaMessaging.Runtime

open SisaMessaging.Core SisaMessaging.Postgres.Partitions SisaMessaging.Lib
open SisaMessaging.Lib.Prog (Obeys Protocol)

/-- What a run knows of the partitions. -/
structure MaintenancePhase where
  /-- It holds the lock. -/
  locked : Bool
  /-- The last listing, if it created no partition since. -/
  listed : List (String × String × String)
  /-- The partitions it counted no pending or failed rows in since. -/
  clean : List String

/-- What a run that knew these partitions to be clean knows after an operation. -/
def cleanAfter (clean : List String) : (op : PartitionOp) → PartitionRet op → List String
  | .tryLock, .ok true | .partitions, .ok _ | .create _ _ _, _ => []
  | .countUnsent name, .ok (0, 0) => name :: clean
  | _, _ => clean

theorem cleanAfter_countUnsent (clean : List String) (name : String) (pending failed : Int) :
    cleanAfter clean (.countUnsent name) (.ok (pending, failed)) =
      if pending = 0 ∧ failed = 0 then name :: clean else clean := by
  by_cases h : pending = 0 ∧ failed = 0
  · obtain ⟨rfl, rfl⟩ := h
    rfl
  · rw [if_neg h]
    unfold cleanAfter
    split <;> simp_all

/-- By the listing the partition is past the retention. -/
def PastRetention (settings : PartitionSettings) (today : Date)
    (listed : List (String × String × String)) (name : String) : Prop :=
  ∃ days, settings.retentionDays = some days ∧ ∃ row ∈ listed, row.1 = name ∧
    ∃ toDay, Date.parse row.2.2 = .ok toDay ∧ toDay ≤ today.addDays (-days)

namespace MaintenancePhase

def start : MaintenancePhase := ⟨false, [], []⟩

def Allowed (settings : PartitionSettings) (today : Date) (phase : MaintenancePhase) :
    PartitionOp → Prop
  | .tryLock => True
  | .detach name | .drop name => phase.locked = true ∧ name ∈ phase.clean ∧
      PastRetention settings today phase.listed name
  | _ => phase.locked = true

def next (phase : MaintenancePhase) (op : PartitionOp) (reply : PartitionRet op) :
    MaintenancePhase where
  locked := match op, reply with
    | .tryLock, .ok true => true
    | _, _ => phase.locked
  listed := match op, reply with
    | .partitions, .ok rows => rows
    | .tryLock, .ok true | .create _ _ _, _ => []
    | _, _ => phase.listed
  clean := cleanAfter phase.clean op reply

end MaintenancePhase

def maintenanceProtocol (settings : PartitionSettings) (today : Date) :
    Protocol PartitionOp PartitionRet MaintenancePhase where
  allowed := MaintenancePhase.Allowed settings today
  replies _ _ _ := True
  next := MaintenancePhase.next

/-! ## `maintain` follows it -/

section Obeys

variable {settings : PartitionSettings} {today : Date} {phase : MaintenancePhase}
  {table : Table} {debug : String → String}

/-- The partitions are read from the listing. -/
def ReadFrom (listed : List (String × String × String)) (ps : List PartitionInfo) : Prop :=
  ∀ p ∈ ps, ∃ row ∈ listed, row.1 = p.name ∧ Date.parse row.2.2 = .ok p.toDay

theorem parse_of_date {text : String} {day : Date} (h : date debug text = .ok day) :
    Date.parse text = .ok day := by
  unfold date at h
  cases hparse : Date.parse text with
  | error error =>
    rw [hparse] at h
    cases h
  | ok read =>
    rw [hparse] at h
    cases h
    rfl

theorem readFrom_mapM {rows : List (String × String × String)} {ps : List PartitionInfo}
    (h : rows.mapM (fun (name, fromDay, toDay) => do
      return PartitionInfo.new name (← date debug fromDay) (← date debug toDay)) =
        (.ok ps : Except StoreError (List PartitionInfo))) : ReadFrom rows ps := by
  induction rows generalizing ps with
  | nil =>
    cases h
    exact fun p hp => absurd hp List.not_mem_nil
  | cons row rows ih =>
    obtain ⟨name, fromText, toText⟩ := row
    rw [List.mapM_cons] at h
    dsimp only at h
    cases hfrom : date debug fromText with
    | error error =>
      rw [hfrom] at h
      cases h
    | ok fromDay =>
      cases hto : date debug toText with
      | error error =>
        rw [hfrom, hto] at h
        cases h
      | ok toDay =>
        rw [hfrom, hto] at h
        generalize hrest : List.mapM (m := Except StoreError) _ rows = rest at h
        cases rest with
        | error error => cases h
        | ok rest =>
          cases h
          intro p hp
          rcases List.mem_cons.mp hp with rfl | hp
          · exact ⟨_, List.mem_cons_self, rfl, parse_of_date hto⟩
          · obtain ⟨row, hrow, hread⟩ := ih hrest p hp
            exact ⟨row, List.mem_cons_of_mem _ hrow, hread⟩

theorem partitions_obeys (h : phase.locked = true) :
    Obeys (maintenanceProtocol settings today) (fun phase result => phase.locked = true ∧
      ∀ ps, result = .ok ps → ReadFrom phase.listed ps) phase (partitions debug) := by
  refine ⟨h, fun reply _ => ?_⟩
  cases reply with
  | error error => exact ⟨h, nofun⟩
  | ok rows => exact ⟨h, fun ps hps => readFrom_mapM hps⟩

theorem create_obeys (a b : Date) (h : phase.locked = true) :
    Obeys (maintenanceProtocol settings today) (fun phase _ => phase.locked = true) phase
      (create table a b) :=
  ⟨h, fun _ _ => h⟩

theorem fill_obeys (stop : Date) (days : Nat) (day : Date) (existing : List PartitionInfo)
    (firstError : Option StoreError) (h : phase.locked = true) :
    Obeys (maintenanceProtocol settings today) (fun phase _ => phase.locked = true) phase
      (fill table stop days day existing firstError) := by
  induction days generalizing day existing firstError phase with
  | zero => exact h
  | succ days ih =>
    unfold fill
    split
    case isFalse => exact h
    case isTrue =>
      split
      · exact ih _ _ _ h
      · apply (create_obeys _ _ h).bind
        intro phase result h
        cases result with
        | ok _ => exact ih _ _ _ h
        | error error => exact ih _ _ _ h

theorem fillIntervals_obeys (interval : PartitionInterval) (count : Nat) (start : Date)
    (existing : List PartitionInfo) (firstError : Option StoreError) (h : phase.locked = true) :
    Obeys (maintenanceProtocol settings today) (fun phase _ => phase.locked = true) phase
      (fillIntervals table interval count start existing firstError) := by
  induction count generalizing start existing firstError phase with
  | zero => exact h
  | succ count ih =>
    unfold fillIntervals
    exact (fill_obeys _ _ _ _ _ h).bind fun phase result h => ih _ _ _ h

theorem ensurePartitions_obeys (interval : PartitionInterval) (day : Date) (count : Nat)
    (h : phase.locked = true) :
    Obeys (maintenanceProtocol settings today) (fun phase _ => phase.locked = true) phase
      (ensurePartitions table debug interval day count) := by
  unfold ensurePartitions
  apply (partitions_obeys h).bind
  rintro phase result ⟨h, _⟩
  cases result with
  | error error => exact h
  | ok existing =>
    apply (fillIntervals_obeys interval count _ existing none h).bind
    intro phase result h
    cases result with
    | none => exact h
    | some error => exact h

theorem defaultRows_obeys (h : phase.locked = true) :
    Obeys (maintenanceProtocol settings today) (fun phase _ => phase.locked = true) phase
      defaultRows := by
  refine ⟨h, fun reply _ => ?_⟩
  match reply with
  | .error error => exact h
  | .ok none => exact h
  | .ok (some default) =>
    refine ⟨h, fun reply _ => ?_⟩
    cases reply with
    | error error => exact h
    | ok rows => exact h

/-- A partition counted to hold no pending or failed rows is clean. -/
def Counted (phase : MaintenancePhase) (p : PartitionInfo) : Prop :=
  p.pending = 0 → p.failed = 0 → p.name ∈ phase.clean

theorem countUnsent_obeys (p : PartitionInfo) (h : phase.locked = true) :
    Obeys (maintenanceProtocol settings today) (fun after result => after.locked = true ∧
      after.listed = phase.listed ∧ (∀ name ∈ phase.clean, name ∈ after.clean) ∧
      ∀ counted, result = .ok counted → counted.name = p.name ∧ counted.toDay = p.toDay ∧
        Counted after counted) phase (countUnsent p) := by
  refine ⟨h, fun reply _ => ?_⟩
  match reply with
  | .error error => exact ⟨h, rfl, fun _ hname => hname, fun counted hcounted => by cases hcounted⟩
  | .ok (pending, failed) =>
    have hkept : ∀ name ∈ phase.clean,
        name ∈ cleanAfter phase.clean (.countUnsent p.name) (.ok (pending, failed)) := by
      intro name hname
      rw [cleanAfter_countUnsent]
      split
      · exact List.mem_cons_of_mem _ hname
      · exact hname
    refine ⟨h, rfl, hkept, ?_⟩
    rintro counted ⟨⟩
    refine ⟨rfl, rfl, fun hpending hfailed => ?_⟩
    obtain rfl : pending = 0 := Int.natAbs_eq_zero.mp hpending
    obtain rfl : failed = 0 := Int.natAbs_eq_zero.mp hfailed
    exact List.mem_cons_self

theorem countAll_obeys (ps : List PartitionInfo) (h : phase.locked = true) :
    Obeys (maintenanceProtocol settings today) (fun after result => after.locked = true ∧
      after.listed = phase.listed ∧ (∀ name ∈ phase.clean, name ∈ after.clean) ∧
      ∀ all, result = .ok all → ∀ counted ∈ all, Counted after counted ∧
        ∃ p ∈ ps, counted.name = p.name ∧ counted.toDay = p.toDay) phase (countAll ps) := by
  induction ps generalizing phase with
  | nil =>
    refine ⟨h, rfl, fun _ hname => hname, ?_⟩
    rintro all ⟨⟩ counted hcounted
    cases hcounted
  | cons p ps ih =>
    unfold countAll
    apply (countUnsent_obeys p h).bind
    rintro first result ⟨hlocked, hlisted, hclean, hresult⟩
    cases result with
    | error error => exact ⟨hlocked, hlisted, hclean, fun all hall => by cases hall⟩
    | ok counted =>
      obtain ⟨hname, hto, hcounted⟩ := hresult counted rfl
      apply (ih hlocked).bind
      rintro last result ⟨hlocked', hlisted', hclean', hrest⟩
      have hboth : ∀ name ∈ phase.clean, name ∈ last.clean :=
        fun name hmem => hclean' name (hclean name hmem)
      cases result with
      | error error =>
        exact ⟨hlocked', hlisted'.trans hlisted, hboth, fun all hall => by cases hall⟩
      | ok rest =>
        refine ⟨hlocked', hlisted'.trans hlisted, hboth, ?_⟩
        rintro all ⟨⟩ other hother
        rcases List.mem_cons.mp hother with rfl | hother
        · refine ⟨fun hpending hfailed => hclean' _ (hcounted hpending hfailed), ?_⟩
          exact ⟨p, List.mem_cons_self, hname, hto⟩
        · obtain ⟨hcounted, q, hq, hsame⟩ := hrest rest rfl other hother
          exact ⟨hcounted, q, List.mem_cons_of_mem _ hq, hsame⟩

/-- What `expirable` finds in the outbox is past the retention, and clean where it counted so. -/
theorem expirable_obeys {days : Nat} (hdays : settings.retentionDays = some days)
    (h : phase.locked = true) :
    Obeys (maintenanceProtocol settings today) (fun phase result => phase.locked = true ∧
      ∀ ps, result = .ok ps → ∀ p ∈ ps, Counted phase p ∧
        PastRetention settings today phase.listed p.name) phase
      (expirable .outbox debug (today.addDays (-days))) := by
  unfold expirable
  apply (partitions_obeys h).bind
  rintro phase result ⟨h, hread⟩
  cases result with
  | error error => exact ⟨h, nofun⟩
  | ok all =>
    dsimp only
    rw [if_pos rfl]
    apply (countAll_obeys _ h).mono
    rintro after result ⟨hlocked, hlisted, _, hall⟩
    refine ⟨hlocked, fun ps hps counted hcounted => ?_⟩
    obtain ⟨hclean, p, hp, hname, hto⟩ := hall ps hps counted hcounted
    obtain ⟨hmem, hle⟩ := List.mem_filter.mp hp
    obtain ⟨row, hrow, hrowname, hparse⟩ := hread all rfl p hmem
    refine ⟨hclean, days, hdays, row, hlisted ▸ hrow, hrowname.trans hname.symm, p.toDay, hparse, ?_⟩
    exact of_decide_eq_true hle

theorem expireAll_obeys (mode : Expiry) (ps : List PartitionInfo) (h : phase.locked = true)
    (hps : ∀ p ∈ ps, Counted phase p ∧ PastRetention settings today phase.listed p.name) :
    Obeys (maintenanceProtocol settings today) (fun _ _ => True) phase (expireAll mode ps) := by
  induction ps with
  | nil => trivial
  | cons p ps ih =>
    obtain ⟨⟨hcounted, hpast⟩, hps⟩ := List.forall_mem_cons.mp hps
    unfold expireAll
    split
    · exact ih hps
    · rename_i hzero
      have hclean : p.name ∈ phase.clean := hcounted (by omega) (by omega)
      have hexpire : Obeys (maintenanceProtocol settings today) (fun after _ => after = phase)
          phase (expire p mode) := by
        cases mode with
        | drop => exact ⟨⟨h, hclean, hpast⟩, fun _ _ => rfl⟩
        | detach => exact ⟨⟨h, hclean, hpast⟩, fun _ _ => rfl⟩
      apply hexpire.bind
      rintro after _ rfl
      exact ih hps

/-- A run of the outbox's maintenance expires only a partition past the retention that it counted
    no pending or failed rows in. -/
theorem maintain_obeys (debug : String → String) (settings : PartitionSettings) (today : Date) :
    Obeys (maintenanceProtocol settings today) (fun _ _ => True) .start
      (maintain .outbox debug settings today) := by
  unfold maintain
  refine ⟨trivial, fun reply _ => ?_⟩
  match reply with
  | .error error => trivial
  | .ok false => trivial
  | .ok true =>
    have hlocked : (⟨true, [], []⟩ : MaintenancePhase).locked = true := rfl
    apply (ensurePartitions_obeys settings.interval today settings.count hlocked).bind
    intro phase _ h
    apply (defaultRows_obeys h).bind
    intro phase result h
    cases result with
    | error error => trivial
    | ok rows =>
      cases hdays : settings.retentionDays with
      | none => trivial
      | some days =>
        apply (expirable_obeys hdays h).bind
        rintro phase result ⟨h, hfound⟩
        cases result with
        | error error => trivial
        | ok ps =>
          apply (expireAll_obeys settings.onExpiry ps h (hfound ps rfl)).bind
          exact fun _ _ _ => trivial

end Obeys

end SisaMessaging.Runtime
