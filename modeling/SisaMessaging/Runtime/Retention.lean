/-
  Maintenance runs one after another, over a database without rows.

  A run fills the stretches of its intervals that no partition holds, and then expires what is
  older than the retention. The intervals begin with the one that holds today, so a stretch or a
  partition in its past days can be older than the retention: the run expires it, and the next one
  finds the stretch again.
-/
import SisaMessaging.Postgres.Catalog
import SisaMessaging.Runtime.Maintenance

namespace SisaMessaging.Runtime

open SisaMessaging.Core SisaMessaging.Postgres.Partitions SisaMessaging.Lib
open SisaMessaging.Lib.Prog (interpret interpret_bind interpret_pure)
open SisaMessaging.Postgres.Partitions.Catalog (answer)

/-- The intervals that a run fills: the current one, and the ones ahead. -/
def PartitionSettings.windows (settings : PartitionSettings) (today : Date) :
    List (Date × Date) :=
  intervals settings.interval settings.count (settings.interval.start today)

section Run

variable (table : Table) (debug : String → String) (settings : PartitionSettings) (today : Date)

/-- The catalog after a run. -/
def maintained (c : Catalog) : Catalog :=
  (interpret (answer table) (maintain table debug settings today) c).2.1

/-- The statements of a run. -/
def statements (c : Catalog) : List PartitionOp :=
  (interpret (answer table) (maintain table debug settings today) c).2.2

end Run

/-- No table has the name that a stretch of the intervals without a partition gets, and the
    retention expires none of these stretches and no partition of a day of the intervals. -/
def Settles (table : Table) (settings : PartitionSettings) (today : Date) (c : Catalog) : Prop :=
  (∀ g ∈ allGaps c.attached (settings.windows today), partitionName table g.1 ∉ c.names) ∧
  ∀ days, settings.retentionDays = some days →
    (∀ g ∈ allGaps c.attached (settings.windows today), today.addDays (-days) < g.2) ∧
    ∀ p ∈ c.attached, ∀ day, p.Holds day → Covers (settings.windows today) day →
      today.addDays (-days) < p.toDay

/-! ## A run -/

section Runs

variable {table : Table} {debug : String → String} {settings : PartitionSettings} {today : Date}
  {c : Catalog}

/-- The partitions past the retention. -/
def expired (settings : PartitionSettings) (today : Date) (c : Catalog) : List PartitionInfo :=
  match settings.retentionDays with
  | none => []
  | some days => c.attached.filter (·.toDay ≤ today.addDays (-days))

theorem mem_expired {p : PartitionInfo} : p ∈ expired settings today c ↔
    p ∈ c.attached ∧ ∃ days, settings.retentionDays = some days ∧
      p.toDay ≤ today.addDays (-days) := by
  unfold expired
  split
  · rename_i h
    simp [h]
  · rename_i days h
    simp [h]

/-- The catalog once a run has filled its intervals. -/
def filled (table : Table) (settings : PartitionSettings) (today : Date) (c : Catalog) : Catalog :=
  c.createAll table (allGaps c.attached (settings.windows today))

theorem ordered_gaps : Catalog.Ordered (allGaps c.attached (settings.windows today)) :=
  ⟨fun _ hg => (allGaps_spec hg).2.1, allGaps_increasing _ _⟩

theorem mem_filled {p : PartitionInfo} : p ∈ (filled table settings today c).attached ↔
    p ∈ c.attached ∨ ∃ g ∈ allGaps c.attached (settings.windows today),
      p = Catalog.filler table g ∧ partitionName table g.1 ∉ c.names :=
  Catalog.mem_createAll ordered_gaps

theorem filled_sound (h : c.Sound table) : (filled table settings today c).Sound table :=
  h.createAll ordered_gaps fun _ hg => (allGaps_spec hg).2.2

/-- A partition without pending or failed rows is expired. -/
theorem interpret_expireAll (table : Table) (mode : Expiry) (ps : List PartitionInfo)
    (h : ∀ p ∈ ps, p.pending = 0 ∧ p.failed = 0) :
    interpret (answer table) (expireAll mode ps) c =
      ((), c.expireAll table mode ps, ps.map (Catalog.expireOp mode)) := by
  induction ps generalizing c with
  | nil => rfl
  | cons p ps ih =>
    obtain ⟨⟨hpending, hfailed⟩, hps⟩ := List.forall_mem_cons.mp h
    unfold expireAll
    rw [if_neg (by omega), interpret_bind _ _ (Catalog.interpret_expire mode p), ih hps]
    rfl

/-- The statements of a run that change the tables. -/
def changes (table : Table) (settings : PartitionSettings) (today : Date) (c : Catalog) :
    List PartitionOp :=
  (allGaps c.attached (settings.windows today)).map (Catalog.createOp table) ++
    (expired settings today (filled table settings today c)).map
      (Catalog.expireOp settings.onExpiry)

theorem filter_creates (gs : List (Date × Date)) :
    (gs.map (Catalog.createOp table)).filter PartitionOp.isDdl =
      gs.map (Catalog.createOp table) := by
  refine List.filter_eq_self.mpr fun op hop => ?_
  obtain ⟨g, _, rfl⟩ := List.mem_map.mp hop
  rfl

theorem filter_expiries (mode : Expiry) (ps : List PartitionInfo) :
    (ps.map (Catalog.expireOp mode)).filter PartitionOp.isDdl =
      ps.map (Catalog.expireOp mode) := by
  refine List.filter_eq_self.mpr fun op hop => ?_
  obtain ⟨p, _, rfl⟩ := List.mem_map.mp hop
  cases mode <;> rfl

theorem filter_counts (ps : List PartitionInfo) :
    (ps.map fun p => PartitionOp.countUnsent p.name).filter PartitionOp.isDdl = [] := by
  refine List.filter_eq_nil_iff.mpr fun op hop => ?_
  obtain ⟨p, _, rfl⟩ := List.mem_map.mp hop
  exact nofun

/-- What a run asks and expires once its intervals are filled. -/
def retentionOps (table : Table) (settings : PartitionSettings) (ps : List PartitionInfo) :
    List PartitionOp :=
  match settings.retentionDays with
  | none => []
  | some _ => (.partitions :: if table = .outbox then ps.map fun p => .countUnsent p.name else []) ++
      ps.map (Catalog.expireOp settings.onExpiry)

variable (debug settings today) in
/-- A run fills its intervals, and expires what is past the retention. -/
theorem interpret_maintain (h : c.Sound table) : ∃ result,
    interpret (answer table) (maintain table debug settings today) c =
      (result, (filled table settings today c).expireAll table settings.onExpiry
        (expired settings today (filled table settings today c)),
        .tryLock :: .partitions ::
          ((allGaps c.attached (settings.windows today)).map (Catalog.createOp table) ++
            (.default :: .count (table.name ++ "_default") ::
              retentionOps table settings
                (expired settings today (filled table settings today c))))) := by
  have hfilled : (filled table settings today c).Sound table := filled_sound h
  obtain ⟨result, hensure⟩ : ∃ result, interpret (answer table)
      (ensurePartitions table debug settings.interval today settings.count) c =
        (result, filled table settings today c, .partitions ::
          (allGaps c.attached (settings.windows today)).map (Catalog.createOp table)) :=
    Catalog.interpret_ensurePartitions h debug settings.interval today settings.count
  have hlock : interpret (answer table) tryLock c = (.ok true, c, [.tryLock]) := rfl
  unfold maintain retentionOps
  rw [interpret_bind _ _ hlock]
  dsimp only
  rw [interpret_bind _ _ hensure]
  dsimp only
  rw [interpret_bind _ _ Catalog.interpret_defaultRows]
  cases hdays : settings.retentionDays with
  | none =>
    have hexpired : expired settings today (filled table settings today c) = [] := by
      rw [expired, hdays]
    rw [hexpired]
    exact ⟨_, rfl⟩
  | some days =>
    have hexpired : expired settings today (filled table settings today c) =
        (filled table settings today c).attached.filter (·.toDay ≤ today.addDays (-days)) := by
      rw [expired, hdays]
    have hzero : ∀ p ∈ expired settings today (filled table settings today c),
        p.pending = 0 ∧ p.failed = 0 := by
      intro p hp
      rw [hfilled.named p (mem_expired.mp hp).1]
      exact ⟨rfl, rfl⟩
    have hall := interpret_expireAll (c := filled table settings today c) table
      settings.onExpiry _ hzero
    dsimp only
    rw [interpret_bind _ _ (Catalog.interpret_expirable hfilled debug _), ← hexpired]
    dsimp only
    rw [interpret_bind _ _ hall, interpret_pure, List.append_nil]
    exact ⟨_, rfl⟩

variable (debug) in
theorem run_effect (h : c.Sound table) :
    maintained table debug settings today c =
      (filled table settings today c).expireAll table settings.onExpiry
        (expired settings today (filled table settings today c)) ∧
    (statements table debug settings today c).filter PartitionOp.isDdl =
      changes table settings today c := by
  obtain ⟨result, hrun⟩ := interpret_maintain debug settings today h
  unfold maintained statements
  rw [hrun]
  refine ⟨rfl, ?_⟩
  dsimp only
  rw [changes, retentionOps]
  cases hdays : settings.retentionDays with
  | none => simp [expired, hdays, PartitionOp.isDdl, filter_creates]
  | some days =>
    dsimp only
    split <;> simp [PartitionOp.isDdl, filter_creates, filter_expiries, filter_counts]

theorem mem_maintained (h : c.Sound table) {p : PartitionInfo} :
    p ∈ (maintained table debug settings today c).attached ↔
      p ∈ (filled table settings today c).attached ∧
        ∀ days, settings.retentionDays = some days → today.addDays (-days) < p.toDay := by
  rw [(run_effect debug h).1, (filled_sound h).mem_expireAll fun q hq => (mem_expired.mp hq).1]
  refine and_congr_right fun hp => ?_
  rw [mem_expired, not_and]
  constructor
  · exact fun hkept days hdays => not_le.mp fun hle => hkept hp ⟨days, hdays, hle⟩
  · rintro hkept _ ⟨days, hdays, hle⟩
    exact absurd hle (not_le.mpr (hkept days hdays))

theorem maintained_sound (h : c.Sound table) :
    (maintained table debug settings today c).Sound table :=
  (filled_sound h).sublist fun _ hp => ((mem_maintained h).mp hp).1

/-- A run changes nothing when the partitions hold every day of its intervals and none is past the
    retention. -/
theorem changes_eq_nil : changes table settings today c = [] ↔
    (∀ day, Covers (settings.windows today) day → ∃ p ∈ c.attached, p.Holds day) ∧
    ∀ p ∈ c.attached, ∀ days, settings.retentionDays = some days →
      today.addDays (-days) < p.toDay := by
  unfold changes
  rw [List.append_eq_nil_iff, List.map_eq_nil_iff, List.map_eq_nil_iff, allGaps_eq_nil_iff]
  refine and_congr_right fun hheld => ?_
  have hsame : filled table settings today c = c := by
    rw [filled, allGaps_eq_nil_iff.mpr hheld]
    rfl
  rw [hsame, List.eq_nil_iff_forall_not_mem]
  constructor
  · intro hnone p hp days hdays
    exact not_le.mp fun hle => hnone p (mem_expired.mpr ⟨hp, days, hdays, hle⟩)
  · intro hkept p hmem
    obtain ⟨hp, days, hdays, hle⟩ := mem_expired.mp hmem
    exact absurd hle (not_le.mpr (hkept p hp days hdays))

/-- What a run leaves holds every day of its intervals exactly when it settles. -/
theorem covered_iff_settles (h : c.Sound table) :
    (∀ day, Covers (settings.windows today) day →
      ∃ p ∈ (maintained table debug settings today c).attached, p.Holds day) ↔
    Settles table settings today c := by
  constructor
  · intro hheld
    -- The partition that a run leaves for a stretch is the one it created.
    have hfiller : ∀ g ∈ allGaps c.attached (settings.windows today),
        partitionName table g.1 ∉ c.names ∧
          ∀ days, settings.retentionDays = some days → today.addDays (-days) < g.2 := by
      intro g hg
      obtain ⟨hcovers, hlt, hapart⟩ := allGaps_spec hg
      obtain ⟨p, hp, hholds⟩ := hheld g.1 hcovers
      obtain ⟨hin, hkept⟩ := (mem_maintained h).mp hp
      rcases mem_filled.mp hin with hold | ⟨other, ho, rfl, hfree⟩
      · rcases hapart p hold with hle | hle
        · exact absurd hholds.2 (not_lt.mpr hle)
        · exact absurd (hlt.trans_le hle) (not_lt.mpr hholds.1)
      · obtain rfl : other = g := ordered_gaps.eq ho hg hholds ⟨le_refl _, hlt⟩
        exact ⟨hfree, hkept⟩
    refine ⟨fun g hg => (hfiller g hg).1, fun days hdays => ?_⟩
    refine ⟨fun g hg => (hfiller g hg).2 days hdays, fun p hp day hday hcovers => ?_⟩
    obtain ⟨q, hq, hqday⟩ := hheld day hcovers
    obtain ⟨hin, hkept⟩ := (mem_maintained h).mp hq
    obtain rfl := (filled_sound h).apart p (mem_filled.mpr (Or.inl hp)) q hin day hday hqday
    exact hkept days hdays
  · rintro ⟨hnames, hretention⟩ day hcovers
    rcases allGaps_cover c.attached hcovers with ⟨p, hp, hday⟩ | ⟨g, hg, hday⟩
    · refine ⟨p, (mem_maintained h).mpr ⟨mem_filled.mpr (Or.inl hp), fun days hdays => ?_⟩, hday⟩
      exact (hretention days hdays).2 p hp day hday hcovers
    · refine ⟨Catalog.filler table g, (mem_maintained h).mpr ⟨?_, fun days hdays => ?_⟩, hday⟩
      · exact mem_filled.mpr (Or.inr ⟨g, hg, rfl, hnames g hg⟩)
      · exact (hretention days hdays).1 g hg

/-- A second run with the same settings on the same day changes no table exactly when the first
    settles. -/
theorem statements_again_iff (h : c.Sound table) :
    (∀ op ∈ statements table debug settings today (maintained table debug settings today c),
      op.isDdl = false) ↔ Settles table settings today c := by
  have hnone : (∀ op ∈ statements table debug settings today
        (maintained table debug settings today c), op.isDdl = false) ↔
      changes table settings today (maintained table debug settings today c) = [] := by
    rw [← (run_effect debug (maintained_sound h)).2, List.filter_eq_nil_iff]
    simp only [Bool.not_eq_true]
  rw [hnone, changes_eq_nil, covered_iff_settles h]
  exact and_iff_left fun p hp days hdays => ((mem_maintained h).mp hp).2 days hdays

/-! ## Any number of runs -/

end Runs

/-- The catalogs that runs on any days, with any settings, lead to. -/
inductive Maintained (table : Table) (debug : String → String) : Catalog → Prop where
  | start {c} : c.Sound table → Maintained table debug c
  | run {c} (settings today) : Maintained table debug c →
      Maintained table debug (maintained table debug settings today c)

section Maintained

variable {table : Table} {debug : String → String} {c : Catalog}

theorem Maintained.sound (h : Maintained table debug c) : c.Sound table := by
  induction h with
  | start h => exact h
  | run settings today _ ih => exact maintained_sound ih

/-- After any runs: running a maintenance run again, with its settings and on its day, changes no
    table exactly when the run settles. -/
theorem maintain_again_iff (h : Maintained table debug c) (settings : PartitionSettings)
    (today : Date) :
    (∀ op ∈ statements table debug settings today (maintained table debug settings today c),
      op.isDdl = false) ↔ Settles table settings today c :=
  statements_again_iff h.sound

end Maintained

/-! ## The migration's partitions -/

/-- 2026-11-10, and the days after it. -/
def tenthOn (n : Nat) : Date := .fromDays (daysFromDate 2026 11 10 + n)

/-- The outbox's partitions as the migration makes them on 2026-11-10. -/
def migrated : Catalog where
  attached := (List.range 8).map fun n =>
    .new (partitionName .outbox (tenthOn n)) (tenthOn n) (tenthOn (n + 1))
  others := [Table.outbox.name, Table.outbox.name ++ "_default"]

theorem days_tenthOn {n : Nat} (h : n ≤ 8) : (tenthOn n).days = 20767 + n := by
  have hfirst : Date.firstDay = -719528 := rfl
  have hlast : Date.lastDay = 2932896 := rfl
  have hday : daysFromDate 2026 11 10 = 20767 := rfl
  simp only [tenthOn, Date.fromDays, hfirst, hlast, hday]
  omega

theorem migrated_sound : migrated.Sound .outbox where
  named p hp := by
    obtain ⟨n, _, rfl⟩ := List.mem_map.mp hp
    rfl
  proper p hp := by
    obtain ⟨n, hn, rfl⟩ := List.mem_map.mp hp
    have hn := List.mem_range.mp hn
    show tenthOn n < tenthOn (n + 1)
    rw [Date.lt_iff, days_tenthOn (by omega), days_tenthOn (by omega)]
    omega
  apart p hp q hq day hpd hqd := by
    obtain ⟨n, hn, rfl⟩ := List.mem_map.mp hp
    obtain ⟨m, hm, rfl⟩ := List.mem_map.mp hq
    have hn := List.mem_range.mp hn
    have hm := List.mem_range.mp hm
    have hp1 : (tenthOn n).days ≤ day.days := hpd.1
    have hp2 : day.days < (tenthOn (n + 1)).days := hpd.2
    have hq1 : (tenthOn m).days ≤ day.days := hqd.1
    have hq2 : day.days < (tenthOn (m + 1)).days := hqd.2
    rw [days_tenthOn (by omega)] at hp1 hp2 hq1 hq2
    obtain rfl : n = m := by omega
    rfl

theorem migrated_settles : Settles .outbox .default (tenthOn 0) migrated := by
  have hgaps : allGaps migrated.attached (PartitionSettings.default.windows (tenthOn 0)) = [] := by
    decide +kernel
  refine ⟨fun g hg => ?_, nofun⟩
  rw [hgaps] at hg
  cases hg

theorem migrated_again : (statements .outbox id .default (tenthOn 0)
    (maintained .outbox id .default (tenthOn 0) migrated)).any PartitionOp.isDdl = false := by
  have hstart : Maintained .outbox id migrated := .start migrated_sound
  have hnone := (maintain_again_iff hstart .default (tenthOn 0)).mpr migrated_settles
  exact List.any_eq_false.mpr fun op hop => Bool.eq_false_iff.mp (hnone op hop)

/-- A month each from now on, kept for a week. -/
def monthly : PartitionSettings := ⟨.month, 0, some 7, .detach⟩

/-- A run a week after the migration creates a partition for 1 to 9 November, and detaches it. -/
theorem not_migrated_settles : ¬Settles .outbox monthly (tenthOn 7) migrated := by
  intro h
  have hgap : (Date.fromDays (daysFromDate 2026 11 1), tenthOn 0) ∈
      allGaps migrated.attached (monthly.windows (tenthOn 7)) := by decide +kernel
  exact absurd ((h.2 7 rfl).1 _ hgap) (by decide +kernel)

theorem not_maintain_again : ¬∀ c, Maintained .outbox id c → ∀ settings today,
    ∀ op ∈ statements .outbox id settings today (maintained .outbox id settings today c),
      op.isDdl = false := fun h =>
  not_migrated_settles ((statements_again_iff migrated_sound).mp
    (h migrated (.start migrated_sound) monthly (tenthOn 7)))

end SisaMessaging.Runtime
