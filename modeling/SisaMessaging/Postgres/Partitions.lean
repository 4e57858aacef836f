/-
  The partitions of the outbox and inbox tables, as the maintenance worker keeps them.

  A program performs the statements of `PostgresPartitions` (`PartitionOp`), each committed on its
  own. `gaps` is what `ensurePartitions` finds missing among the partitions it listed.
-/
import SisaMessaging.Core.Partition
import SisaMessaging.Core.Store
import SisaMessaging.Lib.Prog

namespace SisaMessaging.Postgres.Partitions

open SisaMessaging.Core SisaMessaging.Lib

inductive Table where
  | outbox | inbox
  deriving DecidableEq

def Table.name : Table → String
  | outbox => "outbox_messages"
  | inbox => "inbox_receipts"

/-- The statements. -/
inductive PartitionOp where
  /-- The session's advisory lock on the table. -/
  | tryLock
  /-- Every range partition, oldest first: its name and its bounds as UTC days. -/
  | partitions
  | create (name : String) (fromDay toDay : Date)
  /-- The default partition's name. -/
  | default
  | count (table : String)
  /-- How many rows of a partition are pending, and how many failed. -/
  | countUnsent (name : String)
  | detach (name : String)
  | drop (name : String)

/-- The statement changes the tables. -/
def PartitionOp.isDdl : PartitionOp → Bool
  | .create _ _ _ | .detach _ | .drop _ => true
  | _ => false

@[reducible] def PartitionRet : PartitionOp → Type
  | .tryLock => Except String Bool
  | .partitions => Except String (List (String × String × String))
  | .create _ _ _ => Except String Unit
  | .default => Except String (Option String)
  | .count _ => Except String Int
  | .countUnsent _ => Except String (Int × Int)
  | .detach _ => Except String Unit
  | .drop _ => Except String Unit

abbrev Maintaining := Prog PartitionOp PartitionRet

def perform (op : PartitionOp) : Maintaining (PartitionRet op) := Prog.perform op

/-- `database(context)`. -/
def database {α : Type} (context : String) (reply : Except String α) : Except StoreError α :=
  reply.mapError (.database context)

/-- The name of the partition that starts on a day. -/
def partitionName (table : Table) (fromDay : Date) : String :=
  table.name ++ "_p" ++ String.ofList (fromDay.toText.toList.filter (· ≠ '-'))

/-- The partition that holds the day. -/
def holder (existing : List PartitionInfo) (day : Date) : Option PartitionInfo :=
  existing.find? fun partition => partition.Holds day

/-- Where the gap from `day` ends: at the next partition, or at `stop`. -/
def gapEnd (existing : List PartitionInfo) (day stop : Date) : Date :=
  match ((existing.map PartitionInfo.fromDay).filter (day < ·)).min? with
  | some next => min next stop
  | none => stop

section Store

variable (table : Table) (debug : String → String)

def date (text : String) : Except StoreError Date :=
  (Date.parse text).mapError fun error =>
    .database "reading a partition's bounds" (error.toText debug)

def partitions : Maintaining (Except StoreError (List PartitionInfo)) := do
  let reply ← perform .partitions
  return do
    let rows ← database "listing the partitions" reply
    rows.mapM fun (name, fromDay, toDay) => do
      return .new name (← date debug fromDay) (← date debug toDay)

def create (fromDay toDay : Date) : Maintaining (Except StoreError Unit) := do
  let reply ← perform (.create (partitionName table fromDay) fromDay toDay)
  return database "creating a partition" reply

/-- True when this instance holds the lock. -/
def tryLock : Maintaining (Except StoreError Bool) := do
  let reply ← perform .tryLock
  return database "taking the partition lock" reply

/-- The loop over the days of one interval: fills each stretch up to `stop` that no partition holds
    yet. Each round moves on by a day at least, so as many rounds as days are enough. -/
def fill (stop : Date) : Nat → Date → List PartitionInfo → Option StoreError →
    Maintaining (List PartitionInfo × Option StoreError)
  | 0, _, existing, firstError => return (existing, firstError)
  | days + 1, day, existing, firstError =>
    if day < stop then
      match holder existing day with
      | some partition => fill stop days partition.toDay existing firstError
      | none => do
        let next := gapEnd existing day stop
        match ← create table day next with
        | .ok () => fill stop days next (existing ++ [.new "" day next]) firstError
        | .error error => fill stop days next existing (firstError.or (some error))
    else return (existing, firstError)

/-- The loop over the intervals. -/
def fillIntervals (interval : PartitionInterval) : Nat → Date → List PartitionInfo →
    Option StoreError → Maintaining (Option StoreError)
  | 0, _, _, firstError => return firstError
  | count + 1, start, existing, firstError => do
    let stop := interval.stop start
    let (existing, firstError) ←
      fill table stop (stop.days - start.days).toNat start existing firstError
    fillIntervals interval count stop existing firstError

def ensurePartitions (interval : PartitionInterval) (fromDay : Date) (count : Nat) :
    Maintaining (Except StoreError Unit) := do
  match ← partitions debug with
  | .error error => return .error error
  | .ok existing =>
    match ← fillIntervals table interval count (interval.start fromDay) existing none with
    | some error => return .error error
    | none => return .ok ()

def defaultRows : Maintaining (Except StoreError Nat) := do
  match ← perform .default with
  | .error error => return .error (.database "finding the default partition" error)
  | .ok none => return .ok 0
  | .ok (some default) =>
    match ← perform (.count default) with
    | .error error => return .error (.database "counting the default partition's rows" error)
    | .ok rows => return .ok rows.natAbs

def countUnsent (partition : PartitionInfo) : Maintaining (Except StoreError PartitionInfo) := do
  match ← perform (.countUnsent partition.name) with
  | .error error => return .error (.database "counting a partition's unsent rows" error)
  | .ok (pending, failed) =>
    return .ok { partition with pending := pending.natAbs, failed := failed.natAbs }

/-- The loop of `expirable`. -/
def countAll : List PartitionInfo → Maintaining (Except StoreError (List PartitionInfo))
  | [] => return .ok []
  | partition :: rest => do
    match ← countUnsent partition with
    | .error error => return .error error
    | .ok partition =>
      match ← countAll rest with
      | .error error => return .error error
      | .ok rest => return .ok (partition :: rest)

def expirable (olderThan : Date) : Maintaining (Except StoreError (List PartitionInfo)) := do
  match ← partitions debug with
  | .error error => return .error error
  | .ok all =>
    let expirable := all.filter (·.toDay ≤ olderThan)
    if table = .outbox then countAll expirable else return .ok expirable

def expire (partition : PartitionInfo) (mode : Expiry) : Maintaining (Except StoreError Unit) :=
  match mode with
  | .drop => do
    let reply ← perform (.drop partition.name)
    return database "expiring a partition" reply
  | .detach => do
    let reply ← perform (.detach partition.name)
    return database "expiring a partition" reply

end Store

/-! ## Gaps -/

/-- The stretches that the loop fills, whatever its statements reply. -/
def gaps (existing : List PartitionInfo) (stop : Date) : Nat → Date → List (Date × Date)
  | 0, _ => []
  | days + 1, day =>
    if day < stop then
      match holder existing day with
      | some partition => gaps existing stop days partition.toDay
      | none => (day, gapEnd existing day stop) :: gaps existing stop days (gapEnd existing day stop)
    else []

/-- The intervals that `ensurePartitions` goes through. -/
def intervals (interval : PartitionInterval) : Nat → Date → List (Date × Date)
  | 0, _ => []
  | count + 1, start =>
    (start, interval.stop start) :: intervals interval count (interval.stop start)

/-- What `ensurePartitions` fills. -/
def allGaps (existing : List PartitionInfo) (windows : List (Date × Date)) : List (Date × Date) :=
  windows.flatMap fun (start, stop) => gaps existing stop (stop.days - start.days).toNat start

section Gaps

variable {existing extra : List PartitionInfo} {day stop : Date}

variable (existing) in
theorem gapEnd_bounds (h : day < stop) :
    day < gapEnd existing day stop ∧ gapEnd existing day stop ≤ stop := by
  unfold gapEnd
  split
  · rename_i next hnext
    have hmem := (List.min?_eq_some_iff.mp hnext).1
    have hlt : day < next := by simpa using (List.mem_filter.mp hmem).2
    exact ⟨lt_min hlt h, min_le_right _ _⟩
  · exact ⟨h, le_refl _⟩

/-- A gap ends no later than the next partition starts. -/
theorem gapEnd_le {p : PartitionInfo} (hp : p ∈ existing) (h : day < p.fromDay) :
    gapEnd existing day stop ≤ p.fromDay := by
  have hmem : p.fromDay ∈ (existing.map PartitionInfo.fromDay).filter (day < ·) :=
    List.mem_filter.mpr ⟨List.mem_map_of_mem hp, by simpa using h⟩
  unfold gapEnd
  split
  · rename_i next hnext
    exact (min_le_left _ _).trans ((List.min?_eq_some_iff.mp hnext).2 _ hmem)
  · rename_i hnone
    rw [List.min?_eq_none_iff.mp hnone] at hmem
    exact absurd hmem List.not_mem_nil

theorem holder_some {p : PartitionInfo} (h : holder existing day = some p) :
    p ∈ existing ∧ p.Holds day := by
  have hholds := List.find?_some h
  exact ⟨List.mem_of_find?_eq_some h, of_decide_eq_true hholds⟩

theorem holder_none (h : holder existing day = none) {p : PartitionInfo} (hp : p ∈ existing) :
    ¬p.Holds day := by
  simpa using List.find?_eq_none.mp h p hp

/-- A stretch lies in the window and apart from every partition. -/
theorem mem_gaps {days : Nat} {g : Date × Date} (h : g ∈ gaps existing stop days day) :
    day ≤ g.1 ∧ g.1 < g.2 ∧ g.2 ≤ stop ∧
      ∀ p ∈ existing, p.toDay ≤ g.1 ∨ g.2 ≤ p.fromDay := by
  induction days generalizing day with
  | zero => cases h
  | succ days ih =>
    unfold gaps at h
    split at h
    case isFalse => cases h
    case isTrue hlt =>
      obtain ⟨hnext, hstop⟩ := gapEnd_bounds existing hlt
      split at h
      · rename_i p hp
        obtain ⟨hday, hrest⟩ := ih h
        exact ⟨(le_of_lt (holder_some hp).2.2).trans hday, hrest⟩
      · rename_i hnone
        rcases List.mem_cons.mp h with rfl | h
        · refine ⟨le_refl _, hnext, hstop, fun p hp => ?_⟩
          rcases lt_or_ge day p.fromDay with hfrom | hfrom
          · exact Or.inr (gapEnd_le hp hfrom)
          · exact Or.inl (not_lt.mp fun hto => holder_none hnone hp ⟨hfrom, hto⟩)
        · obtain ⟨hday, hrest⟩ := ih h
          exact ⟨(le_of_lt hnext).trans hday, hrest⟩

variable (existing) in
/-- Every day of the window is a partition's or in a stretch. -/
theorem gaps_cover {days : Nat} (hdays : stop.days - day.days ≤ days) {d : Date} (h : day ≤ d)
    (hd : d < stop) : (∃ p ∈ existing, p.Holds d) ∨
      ∃ g ∈ gaps existing stop days day, g.1 ≤ d ∧ d < g.2 := by
  induction days generalizing day with
  | zero =>
    have hle := Date.le_iff.mp h
    have hlt := Date.lt_iff.mp hd
    omega
  | succ days ih =>
    unfold gaps
    rw [if_pos (h.trans_lt hd)]
    -- A round moves on by a day at least.
    have moves : ∀ next : Date, day < next → stop.days - next.days ≤ days := by
      intro next hnext
      have := Date.lt_iff.mp hnext
      omega
    split
    · rename_i p hp
      obtain ⟨hmem, hfrom, hto⟩ := holder_some hp
      rcases lt_or_ge d p.toDay with hlt | hge
      · exact Or.inl ⟨p, hmem, hfrom.trans h, hlt⟩
      · exact ih (moves _ hto) hge
    · have hnext := (gapEnd_bounds existing (h.trans_lt hd)).1
      rcases lt_or_ge d (gapEnd existing day stop) with hlt | hge
      · exact Or.inr ⟨_, List.mem_cons_self, h, hlt⟩
      · rcases ih (moves _ hnext) hge with hheld | ⟨g, hg, hin⟩
        · exact Or.inl hheld
        · exact Or.inr ⟨g, List.mem_cons_of_mem _ hg, hin⟩

/-- The stretches come in order. -/
theorem gaps_increasing (days : Nat) :
    (gaps existing stop days day).Pairwise fun g later => g.2 ≤ later.1 := by
  induction days generalizing day with
  | zero => exact .nil
  | succ days ih =>
    unfold gaps
    split
    case isFalse => exact .nil
    case isTrue =>
      split
      · exact ih
      · exact .cons (fun later h => (mem_gaps h).1) ih

theorem holder_append (h : ∀ p ∈ extra, ¬p.Holds day) :
    holder (existing ++ extra) day = holder existing day := by
  have hnone : extra.find? (fun partition => decide (partition.Holds day)) = none :=
    List.find?_eq_none.mpr fun p hp => by simpa using h p hp
  rw [holder, List.find?_append, hnone, Option.or_none]
  rfl

theorem gapEnd_append (h : ∀ p ∈ extra, p.fromDay ≤ day) :
    gapEnd (existing ++ extra) day stop = gapEnd existing day stop := by
  have hnone : (extra.map PartitionInfo.fromDay).filter (day < ·) = [] := by
    rw [List.filter_eq_nil_iff]
    intro d hd
    obtain ⟨p, hp, rfl⟩ := List.mem_map.mp hd
    simpa using h p hp
  rw [gapEnd, List.map_append, List.filter_append, hnone, List.append_nil]
  rfl

end Gaps

section Windows

variable {existing : List PartitionInfo} {interval : PartitionInterval}

theorem le_of_mem_intervals {count : Nat} {start : Date} {w : Date × Date}
    (h : w ∈ intervals interval count start) : start ≤ w.1 ∧ w.2 = interval.stop w.1 := by
  induction count generalizing start with
  | zero => cases h
  | succ count ih =>
    rcases List.mem_cons.mp h with rfl | h
    · exact ⟨le_refl _, rfl⟩
    · obtain ⟨hle, hstop⟩ := ih h
      exact ⟨(interval.le_stop start).trans hle, hstop⟩

theorem intervals_increasing (count : Nat) (start : Date) :
    (intervals interval count start).Pairwise fun w later => w.2 ≤ later.1 := by
  induction count generalizing start with
  | zero => exact .nil
  | succ count ih => exact .cons (fun later h => (le_of_mem_intervals h).1) (ih _)

/-- The day is in one of the windows. -/
def Covers (windows : List (Date × Date)) (day : Date) : Prop :=
  ∃ w ∈ windows, w.1 ≤ day ∧ day < w.2

theorem mem_allGaps {windows : List (Date × Date)} {g : Date × Date} :
    g ∈ allGaps existing windows ↔
      ∃ w ∈ windows, g ∈ gaps existing w.2 (w.2.days - w.1.days).toNat w.1 := List.mem_flatMap

/-- A stretch's days are in the windows and no partition's. -/
theorem allGaps_spec {windows : List (Date × Date)} {g : Date × Date}
    (h : g ∈ allGaps existing windows) : Covers windows g.1 ∧ g.1 < g.2 ∧
      ∀ p ∈ existing, p.toDay ≤ g.1 ∨ g.2 ≤ p.fromDay := by
  obtain ⟨w, hw, hg⟩ := mem_allGaps.mp h
  obtain ⟨hstart, hlt, hstop, hapart⟩ := mem_gaps hg
  exact ⟨⟨w, hw, hstart, hlt.trans_le hstop⟩, hlt, hapart⟩

variable (existing) in
theorem allGaps_cover {windows : List (Date × Date)} {day : Date} (h : Covers windows day) :
    (∃ p ∈ existing, p.Holds day) ∨
      ∃ g ∈ allGaps existing windows, g.1 ≤ day ∧ day < g.2 := by
  obtain ⟨w, hw, hstart, hstop⟩ := h
  rcases gaps_cover existing (Int.self_le_toNat _) hstart hstop with hheld | ⟨g, hg, hin⟩
  · exact Or.inl hheld
  · exact Or.inr ⟨g, mem_allGaps.mpr ⟨w, hw, hg⟩, hin⟩

/-- No stretch is left when the partitions hold every day of the windows. -/
theorem allGaps_eq_nil_iff {windows : List (Date × Date)} : allGaps existing windows = [] ↔
    ∀ day, Covers windows day → ∃ p ∈ existing, p.Holds day := by
  constructor
  · intro h day hday
    rcases allGaps_cover existing hday with hheld | ⟨g, hg, _⟩
    · exact hheld
    · rw [h] at hg
      cases hg
  · intro h
    refine List.eq_nil_iff_forall_not_mem.mpr fun g hg => ?_
    obtain ⟨hcovers, hlt, hapart⟩ := allGaps_spec hg
    obtain ⟨p, hp, hfrom, hto⟩ := h g.1 hcovers
    rcases hapart p hp with hle | hle
    · exact absurd hto (not_lt.mpr hle)
    · exact absurd (hlt.trans_le hle) (not_lt.mpr hfrom)

theorem allGaps_increasing (count : Nat) (start : Date) :
    (allGaps existing (intervals interval count start)).Pairwise fun g later => g.2 ≤ later.1 := by
  refine List.pairwise_flatMap.mpr ⟨fun w _ => gaps_increasing _, ?_⟩
  refine (intervals_increasing count start).imp fun hle g hg later hlater => ?_
  exact (mem_gaps hg).2.2.1.trans (hle.trans (mem_gaps hlater).1)

end Windows

/-! ## Names -/

/-- The day's digits, without the dashes. -/
theorem filter_toText (day : Date) : day.toText.toList.filter (· ≠ '-') =
    paddedChars 4 day.year ++ paddedChars 2 day.month ++ paddedChars 2 day.day := by
  have hdigits : ∀ width n, (paddedChars width n).filter (· ≠ '-') = paddedChars width n := by
    intro width n
    refine List.filter_eq_self.mpr fun c hc => ?_
    have hdigit := isDigit_paddedChars width n c hc
    simp only [ne_eq, decide_not, Bool.not_eq_true', decide_eq_false_iff_not]
    rintro rfl
    cases hdigit
  have htext : day.toText.toList = paddedChars 4 day.year ++ '-' :: (paddedChars 2 day.month ++
      '-' :: paddedChars 2 day.day) := by
    simp [Date.toText, Date.year, Date.month, Date.day, padded, paddedChars]
  rw [htext, List.filter_append, List.filter_cons, List.filter_append, List.filter_cons, hdigits,
    hdigits, hdigits]
  simp

/-- Partitions of different days have different names. -/
theorem partitionName_injective {table : Table} {day other : Date}
    (h : partitionName table day = partitionName table other) : day = other := by
  have hfilter : day.toText.toList.filter (· ≠ '-') = other.toText.toList.filter (· ≠ '-') := by
    have := congrArg String.toList h
    simpa [partitionName] using this
  rw [filter_toText, filter_toText, List.append_assoc, List.append_assoc] at hfilter
  have hlength : ∀ d : Date, (paddedChars 4 d.year).length = 4 ∧
      (paddedChars 2 d.month).length = 2 := by
    intro d
    obtain ⟨hyear, ⟨_, hmonth, _, _⟩, _⟩ := d.fields
    exact ⟨length_paddedChars (by decide) (by omega), length_paddedChars (by decide) (by omega)⟩
  obtain ⟨hy, hrest⟩ := List.append_inj hfilter ((hlength day).1.trans (hlength other).1.symm)
  obtain ⟨hm, hd⟩ := List.append_inj hrest ((hlength day).2.trans (hlength other).2.symm)
  have value : ∀ {width a b}, paddedChars width a = paddedChars width b → a = b := by
    intro width a b hab
    rw [← ofDigitChars_paddedChars width a, hab, ofDigitChars_paddedChars]
  refine Date.ext ?_
  rw [← day.fields.2.2, ← other.fields.2.2, value hy, value hm, value hd]

end SisaMessaging.Postgres.Partitions
