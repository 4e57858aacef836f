/-
  What the partition statements do to the tables of a database without rows.

  The catalog has the attached partitions in the order of their days, and the names of the other
  tables: a detached partition keeps its name. A `CREATE` fails only because a table of that name
  exists (`answer`); the statements of a call are run against it (`Prog.interpret`).
-/
import Mathlib.Data.List.Pairwise
import Mathlib.Data.List.Sort
import SisaMessaging.Postgres.Gaps

namespace SisaMessaging.Postgres.Partitions

open SisaMessaging.Core SisaMessaging.Lib
open SisaMessaging.Lib.Prog (interpret interpret_bind interpret_perform interpret_pure)

structure Catalog where
  /-- The range partitions, in the order of their bounds. -/
  attached : List PartitionInfo
  /-- The names of the tables that aren't among them. -/
  others : List String

namespace Catalog

def names (c : Catalog) : List String := c.attached.map PartitionInfo.name ++ c.others

def attach (c : Catalog) (partition : PartitionInfo) : Catalog :=
  { c with attached := c.attached.orderedInsert (·.fromDay ≤ ·.fromDay) partition }

def remove (c : Catalog) (name : String) : Catalog :=
  { c with attached := c.attached.filter (·.name ≠ name) }

def answer (table : Table) : (op : PartitionOp) → Catalog → PartitionRet op × Catalog
  | .tryLock, c => (.ok true, c)
  | .partitions, c =>
    (.ok (c.attached.map fun p => (p.name, p.fromDay.toText, p.toDay.toText)), c)
  | .create name fromDay toDay, c =>
    if name ∈ c.names then (.error ("relation " ++ name ++ " already exists"), c)
    else (.ok (), c.attach (.new name fromDay toDay))
  | .default, c => (.ok (some (table.name ++ "_default")), c)
  | .count _, c => (.ok 0, c)
  | .countUnsent _, c => (.ok (0, 0), c)
  | .detach name, c => (.ok (), { c.remove name with others := name :: c.others })
  | .drop name, c => (.ok (), c.remove name)

/-- Whole partitions, apart from each other, each named after its first day. -/
structure Sound (table : Table) (c : Catalog) : Prop where
  named : ∀ p ∈ c.attached, p = .new (partitionName table p.fromDay) p.fromDay p.toDay
  proper : ∀ p ∈ c.attached, p.fromDay < p.toDay
  apart : ∀ p ∈ c.attached, ∀ q ∈ c.attached, ∀ day, p.Holds day → q.Holds day → p = q

theorem Sound.eq_of_name {table : Table} {c : Catalog} (h : c.Sound table) {p q : PartitionInfo}
    (hp : p ∈ c.attached) (hq : q ∈ c.attached) (hname : p.name = q.name) : p = q := by
  rw [h.named p hp, h.named q hq] at hname
  have hday : p.fromDay = q.fromDay := partitionName_injective hname
  refine h.apart p hp q hq p.fromDay ⟨le_refl _, h.proper p hp⟩ ?_
  rw [hday]
  exact ⟨le_refl _, h.proper q hq⟩

/-! ## Creating -/

section Create

variable {table : Table} {c : Catalog} {g : Date × Date} {gs : List (Date × Date)}

/-- The partition for a stretch. -/
def filler (table : Table) (g : Date × Date) : PartitionInfo :=
  .new (partitionName table g.1) g.1 g.2

def createOp (table : Table) (g : Date × Date) : PartitionOp :=
  .create (partitionName table g.1) g.1 g.2

/-- Creates the stretch's partition, unless a table of its name exists. -/
def create (table : Table) (c : Catalog) (g : Date × Date) : Catalog :=
  (answer table (createOp table g) c).2

theorem mem_attach {p q : PartitionInfo} : q ∈ (c.attach p).attached ↔ q = p ∨ q ∈ c.attached :=
  List.mem_orderedInsert _

theorem mem_create {p : PartitionInfo} : p ∈ (c.create table g).attached ↔
    p ∈ c.attached ∨ (p = filler table g ∧ partitionName table g.1 ∉ c.names) := by
  simp only [create, createOp, answer]
  split
  · rename_i h
    simp [h]
  · rename_i h
    rw [mem_attach, or_comm]
    simp [h, filler]

theorem mem_names_create {name : String} : name ∈ (c.create table g).names ↔
    name ∈ c.names ∨ name = partitionName table g.1 := by
  simp only [create, createOp, answer]
  split
  · rename_i h
    constructor
    · exact Or.inl
    · rintro (hname | rfl)
      · exact hname
      · exact h
  · simp only [names, List.mem_append, List.mem_map, mem_attach]
    constructor
    · rintro (⟨p, rfl | hp, rfl⟩ | hothers)
      · exact Or.inr rfl
      · exact Or.inl (Or.inl ⟨p, hp, rfl⟩)
      · exact Or.inl (Or.inr hothers)
    · rintro ((⟨p, hp, rfl⟩ | hothers) | rfl)
      · exact Or.inl ⟨p, Or.inr hp, rfl⟩
      · exact Or.inr hothers
      · exact Or.inl ⟨_, Or.inl rfl, rfl⟩

def createAll (table : Table) (c : Catalog) (gs : List (Date × Date)) : Catalog :=
  gs.foldl (create table) c

/-- Stretches with proper bounds, in order. -/
structure Ordered (gs : List (Date × Date)) : Prop where
  proper : ∀ g ∈ gs, g.1 < g.2
  increasing : gs.Pairwise fun g later => g.2 ≤ later.1

theorem Ordered.tail (h : Ordered (g :: gs)) : Ordered gs :=
  ⟨fun g hg => h.proper g (List.mem_cons_of_mem _ hg), (List.pairwise_cons.mp h.increasing).2⟩

/-- Two stretches that share a day are one. -/
theorem Ordered.eq (h : Ordered gs) {g other : Date × Date} (hg : g ∈ gs) (ho : other ∈ gs)
    {day : Date} (hgd : g.1 ≤ day ∧ day < g.2) (hod : other.1 ≤ day ∧ day < other.2) :
    g = other := by
  by_contra hne
  let Apart (g later : Date × Date) : Prop := g.2 ≤ later.1 ∨ later.2 ≤ g.1
  have : Std.Symm Apart := ⟨fun _ _ => Or.symm⟩
  have hpairs : gs.Pairwise Apart := h.increasing.imp Or.inl
  have hapart : Apart g other := hpairs.forall hg ho hne
  rcases hapart with hle | hle
  · exact absurd (hod.1.trans_lt hgd.2) (not_lt.mpr hle)
  · exact absurd (hgd.1.trans_lt hod.2) (not_lt.mpr hle)

theorem mem_createAll (h : Ordered gs) {p : PartitionInfo} :
    p ∈ (c.createAll table gs).attached ↔ p ∈ c.attached ∨
      ∃ g ∈ gs, p = filler table g ∧ partitionName table g.1 ∉ c.names := by
  induction gs generalizing c with
  | nil => simp [createAll]
  | cons g gs ih =>
    -- The later stretches have other names than this one.
    have hname : ∀ later ∈ gs, partitionName table later.1 ≠ partitionName table g.1 := by
      intro later hl heq
      have hlt := (h.proper g List.mem_cons_self).trans_le
        ((List.pairwise_cons.mp h.increasing).1 later hl)
      exact absurd (partitionName_injective heq) (ne_of_gt hlt)
    have hsame : ∀ later ∈ gs, partitionName table later.1 ∉ (c.create table g).names ↔
        partitionName table later.1 ∉ c.names := by
      intro later hl
      rw [mem_names_create, not_or, and_iff_left (hname later hl)]
    rw [createAll, List.foldl_cons, ← createAll, ih h.tail, mem_create]
    constructor
    · rintro ((hp | ⟨rfl, hfree⟩) | ⟨later, hl, rfl, hfree⟩)
      · exact Or.inl hp
      · exact Or.inr ⟨g, List.mem_cons_self, rfl, hfree⟩
      · exact Or.inr ⟨later, List.mem_cons_of_mem _ hl, rfl, (hsame later hl).mp hfree⟩
    · rintro (hp | ⟨later, hl, rfl, hfree⟩)
      · exact Or.inl (Or.inl hp)
      · rcases List.mem_cons.mp hl with rfl | hl
        · exact Or.inl (Or.inr ⟨rfl, hfree⟩)
        · exact Or.inr ⟨later, hl, rfl, (hsame later hl).mpr hfree⟩

/-- Partitions for stretches that no partition holds keep a catalog sound. -/
theorem Sound.createAll (hc : c.Sound table) (h : Ordered gs)
    (hapart : ∀ g ∈ gs, ∀ p ∈ c.attached, p.toDay ≤ g.1 ∨ g.2 ≤ p.fromDay) :
    (c.createAll table gs).Sound table where
  named p hp := by
    rcases (mem_createAll h).mp hp with hp | ⟨g, _, rfl, _⟩
    · exact hc.named p hp
    · rfl
  proper p hp := by
    rcases (mem_createAll h).mp hp with hp | ⟨g, hg, rfl, _⟩
    · exact hc.proper p hp
    · exact h.proper g hg
  apart p hp q hq day hpd hqd := by
    have notBoth : ∀ g ∈ gs, ∀ p ∈ c.attached, p.Holds day → (filler table g).Holds day →
        False := by
      intro g hg p hp hpd hgd
      rcases hapart g hg p hp with hle | hle
      · exact absurd (hgd.1.trans_lt hpd.2) (not_lt.mpr hle)
      · exact absurd (hpd.1.trans_lt hgd.2) (not_lt.mpr hle)
    rcases (mem_createAll h).mp hp with hp | ⟨g, hg, rfl, _⟩ <;>
      rcases (mem_createAll h).mp hq with hq | ⟨other, ho, rfl, _⟩
    · exact hc.apart p hp q hq day hpd hqd
    · exact (notBoth other ho p hp hpd hqd).elim
    · exact (notBoth g hg q hq hqd hpd).elim
    · rw [h.eq hg ho hpd hqd]

end Create

/-! ## Expiring -/

section Expire

variable {table : Table} {c : Catalog} {ps : List PartitionInfo}

def expireOp (mode : Expiry) (p : PartitionInfo) : PartitionOp :=
  match mode with
  | .drop => .drop p.name
  | .detach => .detach p.name

def expire (table : Table) (mode : Expiry) (c : Catalog) (p : PartitionInfo) : Catalog :=
  (answer table (expireOp mode p) c).2

def expireAll (table : Table) (mode : Expiry) (c : Catalog) (ps : List PartitionInfo) : Catalog :=
  ps.foldl (expire table mode) c

theorem mem_expireAll {mode : Expiry} {q : PartitionInfo} :
    q ∈ (c.expireAll table mode ps).attached ↔ q ∈ c.attached ∧ ∀ p ∈ ps, q.name ≠ p.name := by
  induction ps generalizing c with
  | nil => simp [expireAll]
  | cons p ps ih =>
    have hone : q ∈ (c.expire table mode p).attached ↔ q ∈ c.attached ∧ q.name ≠ p.name := by
      cases mode <;> simp [expire, expireOp, answer, remove]
    rw [expireAll, List.foldl_cons, ← expireAll, ih, hone, and_assoc, List.forall_mem_cons]

theorem Sound.sublist {other : Catalog} (hc : c.Sound table)
    (h : ∀ p ∈ other.attached, p ∈ c.attached) : other.Sound table where
  named p hp := hc.named p (h p hp)
  proper p hp := hc.proper p (h p hp)
  apart p hp q hq := hc.apart p (h p hp) q (h q hq)

/-- Expiring some of the partitions leaves the others. -/
theorem Sound.mem_expireAll (hc : c.Sound table) {mode : Expiry}
    (hps : ∀ p ∈ ps, p ∈ c.attached) {q : PartitionInfo} :
    q ∈ (c.expireAll table mode ps).attached ↔ q ∈ c.attached ∧ q ∉ ps := by
  rw [Catalog.mem_expireAll]
  refine and_congr_right fun hq => ⟨fun h hmem => h q hmem rfl, fun h p hp hname => ?_⟩
  rw [hc.eq_of_name hq (hps p hp) hname] at h
  exact h hp

end Expire

/-! ## The store's calls -/

section Calls

variable {table : Table} {c : Catalog}

/-- The listing of partitions without counts reads back as them. -/
theorem mapM_listing (debug : String → String) (ps : List PartitionInfo)
    (hps : ∀ p ∈ ps, p = .new p.name p.fromDay p.toDay) :
    (ps.map fun p => (p.name, p.fromDay.toText, p.toDay.toText)).mapM
      (fun (name, fromDay, toDay) => do
        return PartitionInfo.new name (← date debug fromDay) (← date debug toDay)) =
      (.ok ps : Except StoreError (List PartitionInfo)) := by
  induction ps with
  | nil => rfl
  | cons p ps ih =>
    obtain ⟨hp, hps⟩ := List.forall_mem_cons.mp hps
    have hdate : ∀ day : Date, date debug day.toText = .ok day := by
      intro day
      rw [date, Date.parse_toText]
      rfl
    rw [List.map_cons, List.mapM_cons, ih hps]
    dsimp only
    rw [hdate, hdate]
    show Except.ok (PartitionInfo.new p.name p.fromDay p.toDay :: ps) = _
    rw [← hp]

theorem interpret_partitions (h : c.Sound table) (debug : String → String) :
    interpret (answer table) (partitions debug) c = (.ok c.attached, c, [.partitions]) := by
  have hnamed : ∀ p ∈ c.attached, p = .new p.name p.fromDay p.toDay := by
    intro p hp
    rw [h.named p hp]
    rfl
  have hreply := mapM_listing debug c.attached hnamed
  rw [partitions, perform, interpret_perform]
  exact congrArg (fun reply => (reply, c, [PartitionOp.partitions])) hreply

theorem interpret_create_free {day : Date} (stop : Date)
    (h : partitionName table day ∉ c.names) :
    interpret (answer table) (Partitions.create table day stop) c =
      (.ok (), c.create table (day, stop), [createOp table (day, stop)]) := by
  have hreply : (answer table (createOp table (day, stop)) c).1 = .ok () := by
    simp only [answer, createOp, if_neg h]
  show (database _ (answer table (createOp table (day, stop)) c).1, _) = _
  rw [hreply]
  rfl

theorem interpret_create_taken {day : Date} (stop : Date)
    (h : partitionName table day ∈ c.names) :
    ∃ error, interpret (answer table) (Partitions.create table day stop) c =
      (.error error, c.create table (day, stop), [createOp table (day, stop)]) := by
  have hreply : ∃ error, (answer table (createOp table (day, stop)) c).1 = .error error := by
    simp only [answer, createOp, if_pos h]
    exact ⟨_, rfl⟩
  obtain ⟨error, hreply⟩ := hreply
  refine ⟨.database "creating a partition" error, ?_⟩
  show (database _ (answer table (createOp table (day, stop)) c).1, _) = _
  rw [hreply]
  rfl

theorem interpret_createEach (stretches : List (Date × Date)) (firstError : Option StoreError) :
    ∃ last, interpret (answer table) (createEach table stretches firstError) c =
      (last, c.createAll table stretches, stretches.map (createOp table)) := by
  induction stretches generalizing c firstError with
  | nil => exact ⟨firstError, rfl⟩
  | cons g stretches ih =>
    unfold createEach
    by_cases hname : partitionName table g.1 ∈ c.names
    · obtain ⟨error, herror⟩ := interpret_create_taken g.2 hname
      obtain ⟨last, hrest⟩ := ih (c := c.create table g) (firstError.or (some error))
      refine ⟨last, ?_⟩
      rw [interpret_bind _ _ herror]
      dsimp only
      rw [hrest]
      rfl
    · obtain ⟨last, hrest⟩ := ih (c := c.create table g) firstError
      refine ⟨last, ?_⟩
      rw [interpret_bind _ _ (interpret_create_free g.2 hname)]
      dsimp only
      rw [hrest]
      rfl

theorem interpret_ensurePartitions (h : c.Sound table) (debug : String → String)
    (interval : PartitionInterval) (day : Date) (count : Nat) : ∃ result,
    interpret (answer table) (ensurePartitions table debug interval day count) c =
      (result,
        c.createAll table (allGaps c.attached (intervals interval count (interval.start day))),
        .partitions :: (allGaps c.attached (intervals interval count (interval.start day))).map
          (createOp table)) := by
  have hbefore : Before [] (interval.start day) := by simp [Before]
  have hloops := fillIntervals_eq table interval c.attached count none hbefore
  rw [List.append_nil] at hloops
  obtain ⟨error, hfill⟩ : ∃ last, interpret (answer table)
      (fillIntervals table interval count (interval.start day) c.attached none) c = (last, _, _) :=
    hloops ▸ interpret_createEach _ none
  unfold ensurePartitions
  rw [interpret_bind _ _ (interpret_partitions h debug)]
  dsimp only
  rw [interpret_bind _ _ hfill]
  cases error with
  | none => exact ⟨_, by rw [interpret_pure, List.append_nil]; rfl⟩
  | some error => exact ⟨_, by rw [interpret_pure, List.append_nil]; rfl⟩

theorem interpret_defaultRows : interpret (answer table) defaultRows c =
    (.ok 0, c, [.default, .count (table.name ++ "_default")]) := rfl

/-- Counting finds no rows. -/
theorem interpret_countAll (ps : List PartitionInfo)
    (h : ∀ p ∈ ps, p = .new p.name p.fromDay p.toDay) :
    interpret (answer table) (countAll ps) c =
      (.ok ps, c, ps.map fun p => .countUnsent p.name) := by
  induction ps with
  | nil => rfl
  | cons p ps ih =>
    obtain ⟨hp, hps⟩ := List.forall_mem_cons.mp h
    have hcount : interpret (answer table) (countUnsent p) c =
        (.ok p, c, [.countUnsent p.name]) := by
      rw [hp]
      rfl
    unfold countAll
    rw [interpret_bind _ _ hcount]
    dsimp only
    rw [interpret_bind _ _ (ih hps), interpret_pure, List.append_nil]
    rfl

theorem interpret_expirable (h : c.Sound table) (debug : String → String) (olderThan : Date) :
    interpret (answer table) (expirable table debug olderThan) c =
      (.ok (c.attached.filter (·.toDay ≤ olderThan)), c,
        .partitions :: if table = .outbox
          then (c.attached.filter (·.toDay ≤ olderThan)).map fun p => .countUnsent p.name
          else []) := by
  unfold expirable
  rw [interpret_bind _ _ (interpret_partitions h debug)]
  dsimp only
  split
  · rw [interpret_countAll]
    · rfl
    · intro p hp
      rw [h.named p (List.mem_filter.mp hp).1]
      rfl
  · rw [interpret_pure]
    rfl

theorem interpret_expire (mode : Expiry) (p : PartitionInfo) :
    interpret (answer table) (Partitions.expire p mode) c =
      (.ok (), c.expire table mode p, [expireOp mode p]) := by
  cases mode <;> rfl

end Calls

end Catalog

end SisaMessaging.Postgres.Partitions
