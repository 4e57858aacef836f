/-
  `ensurePartitions` fills exactly the gaps between the partitions it listed.

  The loops look at the partitions they created too, but those lie before the day they have reached
  (`Before`), so the statements are those of `allGaps`, whatever they reply (`fillIntervals_eq`).
  `mem_gaps_iff` says the gaps are the maximal stretches of days that no partition holds.
-/
import SisaMessaging.Postgres.Partitions

namespace SisaMessaging.Postgres.Partitions

open SisaMessaging.Core SisaMessaging.Lib
open SisaMessaging.Lib.Prog (Run)

/-! ## The statements of the loops -/

/-- Creates a partition for each stretch, and keeps the first error. -/
def createEach (table : Table) :
    List (Date × Date) → Option StoreError → Maintaining (Option StoreError)
  | [], firstError => return firstError
  | g :: stretches, firstError => do
    match ← create table g.1 g.2 with
    | .ok () => createEach table stretches firstError
    | .error error => createEach table stretches (firstError.or (some error))

theorem createEach_append (table : Table) (stretches more : List (Date × Date))
    (firstError : Option StoreError) : createEach table (stretches ++ more) firstError =
      createEach table stretches firstError >>= createEach table more := by
  induction stretches generalizing firstError with
  | nil => rfl
  | cons g stretches ih =>
    rw [List.cons_append, createEach, createEach, bind_assoc]
    congr 1
    funext reply
    cases reply <;> exact ih _

/-- The new partitions hold days before the ones still to fill. -/
def Before (extra : List PartitionInfo) (day : Date) : Prop :=
  ∀ p ∈ extra, p.fromDay ≤ day ∧ p.toDay ≤ day

theorem Before.mono {extra : List PartitionInfo} {day later : Date} (h : Before extra day)
    (hle : day ≤ later) : Before extra later :=
  fun p hp => ⟨(h p hp).1.trans hle, (h p hp).2.trans hle⟩

theorem Before.holder {existing extra : List PartitionInfo} {day : Date} (h : Before extra day) :
    holder (existing ++ extra) day = holder existing day :=
  holder_append fun p hp hholds => absurd hholds.2 (not_lt.mpr (h p hp).2)

theorem Before.gapEnd {existing extra : List PartitionInfo} {day stop : Date}
    (h : Before extra day) : gapEnd (existing ++ extra) day stop = gapEnd existing day stop :=
  gapEnd_append fun p hp => (h p hp).1

theorem Before.concat {extra : List PartitionInfo} {day next later : Date} (h : Before extra later)
    (hnext : day ≤ next) (hle : next ≤ later) : Before (extra ++ [.new "" day next]) later := by
  intro p hp
  rcases List.mem_append.mp hp with hp | hp
  · exact h p hp
  · rw [List.mem_singleton.mp hp]
    exact ⟨hnext.trans hle, hle⟩

/-- The loop over a window's days, and then a program that doesn't look at the partitions it made. -/
theorem fill_bind (table : Table) (existing : List PartitionInfo) (stop : Date) {α : Type}
    (k : List PartitionInfo × Option StoreError → Maintaining α)
    (next : Option StoreError → Maintaining α)
    (hk : ∀ extra error, Before extra stop → k (existing ++ extra, error) = next error)
    (days : Nat) {day : Date} {extra : List PartitionInfo} (firstError : Option StoreError)
    (hday : Before extra day) (hstop : Before extra stop) :
    fill table stop days day (existing ++ extra) firstError >>= k =
      createEach table (gaps existing stop days day) firstError >>= next := by
  induction days generalizing day extra firstError with
  | zero => exact hk extra firstError hstop
  | succ days ih =>
    unfold fill gaps
    split
    case isFalse => exact hk extra firstError hstop
    case isTrue hlt =>
      rw [hday.holder, hday.gapEnd]
      split
      · rename_i p hp
        exact ih firstError (hday.mono (le_of_lt (holder_some hp).2.2)) hstop
      · obtain ⟨hnext, hle⟩ := gapEnd_bounds existing hlt
        dsimp only
        rw [createEach, bind_assoc, bind_assoc]
        congr 1
        funext reply
        cases reply with
        | ok _ =>
          dsimp only
          rw [List.append_assoc]
          exact ih firstError ((hday.mono hnext.le).concat hnext.le le_rfl)
            (hstop.concat hnext.le hle)
        | error error => exact ih (firstError.or (some error)) (hday.mono hnext.le) hstop

/-- The statements of the loop over the intervals. -/
theorem fillIntervals_eq (table : Table) (interval : PartitionInterval)
    (existing : List PartitionInfo) (count : Nat) {start : Date} {extra : List PartitionInfo}
    (firstError : Option StoreError) (h : Before extra start) :
    fillIntervals table interval count start (existing ++ extra) firstError =
      createEach table (allGaps existing (intervals interval count start)) firstError := by
  induction count generalizing start extra firstError with
  | zero => rfl
  | succ count ih =>
    have hstop := h.mono (interval.le_stop start)
    unfold fillIntervals
    dsimp only
    rw [fill_bind table existing _ _ _ (fun extra error => ih error) _ firstError h hstop]
    exact (createEach_append table (gaps existing (interval.stop start)
      ((interval.stop start).days - start.days).toNat start) _ firstError).symm

/-- More rounds than the window has days change nothing: the loop ends by its own condition. -/
theorem fill_rounds (table : Table) (stop : Date) {days rounds : Nat} {day : Date}
    (existing : List PartitionInfo) (firstError : Option StoreError)
    (hdays : stop.days - day.days ≤ days) (hle : days ≤ rounds) :
    fill table stop rounds day existing firstError =
      fill table stop days day existing firstError := by
  induction days generalizing rounds day existing firstError with
  | zero =>
    have hend : ¬ day < stop := by
      rw [Date.lt_iff]
      omega
    cases rounds with
    | zero => rfl
    | succ rounds =>
      unfold fill
      rw [if_neg hend]
  | succ days ih =>
    obtain ⟨rounds, rfl⟩ : ∃ n, rounds = n + 1 := ⟨rounds - 1, by omega⟩
    have moves : ∀ next : Date, day < next → stop.days - next.days ≤ days := by
      intro next hnext
      have := Date.lt_iff.mp hnext
      omega
    unfold fill
    split
    case isFalse => rfl
    case isTrue hlt =>
      split
      · rename_i p hp
        exact ih _ _ (moves _ (holder_some hp).2.2) (Nat.le_of_succ_le_succ hle)
      · have hnext := moves _ (gapEnd_bounds existing hlt).1
        dsimp only
        congr 1
        funext reply
        cases reply <;> exact ih _ _ hnext (Nat.le_of_succ_le_succ hle)

/-! ## Replies -/

/-- The error of a failed statement. -/
def failure : Except String Unit → Option StoreError
  | .ok () => none
  | .error error => some (.database "creating a partition" error)

/-- A stretch's statement, with its reply. -/
def created (table : Table) (g : Date × Date) (reply : Except String Unit) :
    Event PartitionOp PartitionRet := ⟨.create (partitionName table g.1) g.1 g.2, reply⟩

theorem run_createEach {table : Table} {stretches : List (Date × Date)}
    {firstError last : Option StoreError} {evs : List (Event PartitionOp PartitionRet)} :
    Run (createEach table stretches firstError) evs last ↔
      ∃ replies, replies.length = stretches.length ∧
        evs = List.zipWith (created table) stretches replies ∧
        last = firstError.or (replies.findSome? failure) := by
  induction stretches generalizing firstError evs with
  | nil =>
    rw [createEach, Prog.run_pure]
    constructor
    · rintro ⟨rfl, rfl⟩
      exact ⟨[], rfl, rfl, (Option.or_none).symm⟩
    · rintro ⟨replies, hlength, rfl, rfl⟩
      obtain rfl := List.length_eq_zero_iff.mp hlength
      exact ⟨rfl, (Option.or_none).symm⟩
  | cons g stretches ih =>
    have hfirst : Run (createEach table (g :: stretches) firstError) evs last ↔
        ∃ reply rest, evs = created table g reply :: rest ∧
          Run (createEach table stretches (firstError.or (failure reply))) rest last := by
      rw [createEach, create, bind_assoc]
      refine (Prog.run_perform_bind _ _ evs last).trans ?_
      refine exists_congr fun reply => exists_congr fun rest => and_congr_right fun _ => ?_
      cases reply with
      | ok _ =>
        rw [failure, Option.or_none]
        rfl
      | error error => rfl
    rw [hfirst]
    constructor
    · rintro ⟨reply, rest, rfl, hrun⟩
      obtain ⟨replies, hlength, rfl, rfl⟩ := ih.mp hrun
      refine ⟨reply :: replies, congrArg Nat.succ hlength, rfl, ?_⟩
      rw [Option.or_assoc, List.findSome?_cons]
      cases failure reply <;> rfl
    · rintro ⟨replies, hlength, rfl, rfl⟩
      cases replies with
      | nil => cases hlength
      | cons reply replies =>
        refine ⟨reply, _, rfl, ih.mpr ⟨replies, Nat.succ.inj hlength, rfl, ?_⟩⟩
        rw [Option.or_assoc, List.findSome?_cons]
        cases failure reply <;> rfl

/-! ## The stretches -/

/-- A longest stretch of the window's days that no partition holds: its first day, and the first day
    after it. -/
structure IsStretch (existing : List PartitionInfo) (start stop : Date) (g : Date × Date) : Prop where
  nonempty : g.1 < g.2
  inside : start ≤ g.1 ∧ g.2 ≤ stop
  unheld : ∀ day, g.1 ≤ day → day < g.2 → ∀ p ∈ existing, ¬p.Holds day
  opens : g.1 = start ∨ ∃ day : Date, day.days + 1 = g.1.days ∧ ∃ p ∈ existing, p.Holds day
  closes : g.2 = stop ∨ ∃ p ∈ existing, p.Holds g.2

section Stretches

variable {existing : List PartitionInfo} {start stop : Date}

theorem IsStretch.unique {g other : Date × Date} {day : Date}
    (h : IsStretch existing start stop g) (hother : IsStretch existing start stop other)
    (hday : g.1 ≤ day ∧ day < g.2) (hday' : other.1 ≤ day ∧ day < other.2) : g = other := by
  -- A stretch that begins or ends within another has a held day next to it, which the other has too.
  have first_le : ∀ {g other : Date × Date}, IsStretch existing start stop g →
      IsStretch existing start stop other → g.1 ≤ day ∧ day < g.2 → other.1 ≤ day → other.1 ≤ g.1 := by
    intro g other h hother hday hle
    by_contra hlt
    rw [not_le] at hlt
    rcases hother.opens with hstart | ⟨before, hbefore, p, hp, hholds⟩
    · exact absurd (hstart ▸ hlt) (not_lt.mpr h.inside.1)
    · rw [Date.lt_iff] at hlt
      rw [Date.le_iff] at hle
      exact h.unheld before (Date.le_iff.mpr (by omega))
        (lt_of_lt_of_le (Date.lt_iff.mpr (by omega)) hday.2.le) p hp hholds
  have last_le : ∀ {g other : Date × Date}, IsStretch existing start stop g →
      IsStretch existing start stop other → g.1 ≤ day ∧ day < g.2 → day < other.2 → g.2 ≤ other.2 := by
    intro g other h hother hday hlt'
    by_contra hlt
    rw [not_le] at hlt
    rcases hother.closes with hstop | ⟨p, hp, hholds⟩
    · exact absurd (hstop ▸ hlt) (not_lt.mpr h.inside.2)
    · exact h.unheld other.2 (hday.1.trans hlt'.le) hlt p hp hholds
  refine Prod.ext (le_antisymm ?_ ?_) (le_antisymm ?_ ?_)
  · exact first_le hother h hday' hday.1
  · exact first_le h hother hday hday'.1
  · exact last_le h hother hday hday'.2
  · exact last_le hother h hday' hday.2

theorem gapEnd_closes (hnonempty : ∀ p ∈ existing, p.fromDay < p.toDay) (day stop : Date) :
    gapEnd existing day stop = stop ∨ ∃ p ∈ existing, p.Holds (gapEnd existing day stop) := by
  unfold gapEnd
  split
  · rename_i next hnext
    rcases le_total stop next with hle | hle
    · exact Or.inl (min_eq_right hle)
    · obtain ⟨p, hp, rfl⟩ := List.mem_map.mp
        (List.mem_filter.mp (List.min?_eq_some_iff.mp hnext).1).1
      rw [min_eq_left hle]
      exact Or.inr ⟨p, hp, le_refl _, hnonempty p hp⟩
  · exact Or.inl rfl

/-- What the loop knows of the day it has reached. -/
def Reached (existing : List PartitionInfo) (start stop day : Date) : Prop :=
  day = start ∨ (∃ before : Date, before.days + 1 = day.days ∧ ∃ p ∈ existing, p.Holds before) ∨
    (∃ p ∈ existing, p.Holds day) ∨ stop ≤ day

theorem isStretch_of_mem_gaps (hnonempty : ∀ p ∈ existing, p.fromDay < p.toDay) {days : Nat}
    {day : Date} (hstart : start ≤ day) (hreached : Reached existing start stop day)
    {g : Date × Date} (h : g ∈ gaps existing stop days day) : IsStretch existing start stop g := by
  induction days generalizing day with
  | zero => cases h
  | succ days ih =>
    have hgap := mem_gaps h
    unfold gaps at h
    split at h
    case isFalse => cases h
    case isTrue hlt =>
      split at h
      · rename_i p hp
        obtain ⟨hmem, hfrom, hto⟩ := holder_some hp
        have hfrom' := Date.le_iff.mp hfrom
        have hto' := Date.lt_iff.mp hto
        let before : Date := ⟨p.toDay.days - 1, by have := day.first; omega,
          by have := p.toDay.last; omega⟩
        have hholds : p.Holds before := by
          refine ⟨Date.le_iff.mpr ?_, Date.lt_iff.mpr ?_⟩ <;> simp only [before] <;> omega
        exact ih (hstart.trans hto.le)
          (Or.inr (Or.inl ⟨before, by simp only [before]; omega, p, hmem, hholds⟩)) h
      · rename_i hnone
        obtain ⟨hnext, hle⟩ := gapEnd_bounds existing hlt
        have hcloses := gapEnd_closes hnonempty day stop
        rcases List.mem_cons.mp h with rfl | h
        · refine ⟨hnext, ⟨hstart, hle⟩, fun d hd hd' p hp hholds => ?_, ?_, hcloses⟩
          · rcases hgap.2.2.2 p hp with hbefore | hafter
            · exact absurd (hholds.2.trans_le hbefore) (not_lt.mpr hd)
            · exact absurd (hd'.trans_le hafter) (not_lt.mpr hholds.1)
          · rcases hreached with hday | hbefore | ⟨p, hp, hholds⟩ | hend
            · exact Or.inl hday
            · exact Or.inr hbefore
            · exact absurd hholds (holder_none hnone hp)
            · exact absurd hlt (not_lt.mpr hend)
        · refine ih (hstart.trans hnext.le) (Or.inr (Or.inr ?_)) h
          exact hcloses.elim (fun hend => Or.inr hend.ge) Or.inl

/-- The loop finds every longest stretch of its window, and nothing else. -/
theorem mem_gaps_iff (hnonempty : ∀ p ∈ existing, p.fromDay < p.toDay) {g : Date × Date} :
    g ∈ gaps existing stop (stop.days - start.days).toNat start ↔
      IsStretch existing start stop g := by
  have hreached : Reached existing start stop start := Or.inl rfl
  refine ⟨isStretch_of_mem_gaps hnonempty le_rfl hreached, fun h => ?_⟩
  rcases gaps_cover existing (Int.self_le_toNat _) h.inside.1
    (h.nonempty.trans_le h.inside.2) with ⟨p, hp, hholds⟩ | ⟨other, hmem, hin⟩
  · exact absurd hholds (h.unheld g.1 le_rfl h.nonempty p hp)
  · have hother := isStretch_of_mem_gaps hnonempty le_rfl hreached hmem
    rw [h.unique hother ⟨le_rfl, h.nonempty⟩ hin]
    exact hmem

end Stretches

/-! ## The windows -/

/-- The first day of the interval that many after the first one. -/
def boundary (interval : PartitionInterval) (fromDay : Date) : Nat → Date
  | 0 => interval.start fromDay
  | k + 1 => interval.stop (boundary interval fromDay k)

theorem boundary_mono (interval : PartitionInterval) (fromDay : Date) :
    Monotone (boundary interval fromDay) :=
  monotone_nat_of_le_succ fun _ => interval.le_stop _

theorem mem_intervals_iff {interval : PartitionInterval} {fromDay : Date} {count : Nat} (j : Nat)
    {w : Date × Date} : w ∈ intervals interval count (boundary interval fromDay j) ↔
      ∃ k < count, w = (boundary interval fromDay (j + k), boundary interval fromDay (j + k + 1)) := by
  induction count generalizing j with
  | zero => simp [intervals]
  | succ count ih =>
    have hnext : intervals interval count (interval.stop (boundary interval fromDay j)) =
        intervals interval count (boundary interval fromDay (j + 1)) := rfl
    rw [intervals, List.mem_cons, hnext, ih]
    constructor
    · rintro (rfl | ⟨k, hk, rfl⟩)
      · exact ⟨0, Nat.succ_pos _, rfl⟩
      · exact ⟨k + 1, Nat.succ_lt_succ hk, by rw [show j + (k + 1) = j + 1 + k by omega]⟩
    · rintro ⟨k, hk, rfl⟩
      cases k with
      | zero => exact Or.inl rfl
      | succ k =>
        exact Or.inr ⟨k, Nat.lt_of_succ_lt_succ hk, by rw [show j + (k + 1) = j + 1 + k by omega]⟩

/-- The windows are `[boundary k, boundary (k + 1))`. -/
theorem mem_windows_iff {interval : PartitionInterval} {fromDay : Date} {count : Nat}
    {w : Date × Date} : w ∈ intervals interval count (interval.start fromDay) ↔
      ∃ k < count, w = (boundary interval fromDay k, boundary interval fromDay (k + 1)) := by
  have hstart : interval.start fromDay = boundary interval fromDay 0 := rfl
  rw [hstart, mem_intervals_iff]
  simp only [Nat.zero_add]

theorem covers_iff {interval : PartitionInterval} {fromDay : Date} {count : Nat} {day : Date} :
    Covers (intervals interval count (interval.start fromDay)) day ↔
      boundary interval fromDay 0 ≤ day ∧ day < boundary interval fromDay count := by
  have hmono := boundary_mono interval fromDay
  constructor
  · rintro ⟨w, hw, hstart, hstop⟩
    obtain ⟨k, hk, rfl⟩ := mem_windows_iff.mp hw
    exact ⟨(hmono (Nat.zero_le k)).trans hstart, hstop.trans_le (hmono hk)⟩
  · rintro ⟨hstart, hstop⟩
    have hwindow : ∃ k < count, boundary interval fromDay k ≤ day ∧
        day < boundary interval fromDay (k + 1) := by
      induction count with
      | zero => exact absurd hstop (not_lt.mpr hstart)
      | succ count ih =>
        rcases lt_or_ge day (boundary interval fromDay count) with hlt | hge
        · obtain ⟨k, hk, hin⟩ := ih hlt
          exact ⟨k, hk.trans (Nat.lt_succ_self _), hin⟩
        · exact ⟨count, Nat.lt_succ_self _, hge, hstop⟩
    obtain ⟨k, hk, hin⟩ := hwindow
    exact ⟨_, mem_windows_iff.mpr ⟨k, hk, rfl⟩, hin⟩

/-! ## One partition for each day -/

/-- The two hold no day together. -/
def Apart (p q : PartitionInfo) : Prop := p.toDay ≤ q.fromDay ∨ q.toDay ≤ p.fromDay

theorem holders_length {l : List PartitionInfo} (h : l.Pairwise Apart) {day : Date}
    (hheld : ∃ p ∈ l, p.Holds day) : (l.filter fun p => decide (p.Holds day)).length = 1 := by
  have hfilter := h.filter fun p => decide (p.Holds day)
  have hholds : ∀ p ∈ l.filter fun p => decide (p.Holds day), p.Holds day :=
    fun p hp => of_decide_eq_true (List.mem_filter.mp hp).2
  obtain ⟨p, hp, hday⟩ := hheld
  have hmem : p ∈ l.filter fun p => decide (p.Holds day) :=
    List.mem_filter.mpr ⟨hp, decide_eq_true hday⟩
  generalize l.filter (fun p => decide (p.Holds day)) = held at hfilter hholds hmem
  cases held with
  | nil => cases hmem
  | cons p held =>
    cases held with
    | nil => rfl
    | cons q held =>
      have hp := hholds p List.mem_cons_self
      have hq := hholds q (List.mem_cons_of_mem _ List.mem_cons_self)
      rcases (List.pairwise_cons.mp hfilter).1 q List.mem_cons_self with hle | hle
      · exact absurd (hp.2.trans_le hle) (not_lt.mpr hq.1)
      · exact absurd (hq.2.trans_le hle) (not_lt.mpr hp.1)

/-- The partition that a statement made. -/
def made : Event PartitionOp PartitionRet → Option PartitionInfo
  | ⟨.create name fromDay toDay, .ok ()⟩ => some (.new name fromDay toDay)
  | _ => none

theorem made_created {table : Table} {stretches : List (Date × Date)}
    {replies : List (Except String Unit)} (hlength : replies.length = stretches.length)
    (hok : ∀ reply ∈ replies, reply = .ok ()) :
    (List.zipWith (created table) stretches replies).filterMap made =
      stretches.map fun g => .new (partitionName table g.1) g.1 g.2 := by
  induction stretches generalizing replies with
  | nil => rfl
  | cons g stretches ih =>
    cases replies with
    | nil => cases hlength
    | cons reply replies =>
      obtain ⟨rfl, hrest⟩ := List.forall_mem_cons.mp hok
      exact congrArg (_ :: ·) (ih (Nat.succ.inj hlength) hrest)

/-- What the replies make of the call. -/
def outcome (replies : List (Except String Unit)) : Except StoreError Unit :=
  (replies.findSome? failure).elim (.ok ()) .error

theorem outcome_error_iff {replies : List (Except String Unit)} :
    (∃ error, outcome replies = .error error) ↔ ∃ error, .error error ∈ replies := by
  unfold outcome
  induction replies with
  | nil => simp
  | cons reply replies ih =>
    rw [List.findSome?_cons]
    cases reply with
    | ok _ => simpa [failure] using ih
    | error error => simp [failure]

/-- The partitions that a listing's rows describe. -/
def listed (debug : String → String) (rows : List (String × String × String)) :
    Except StoreError (List PartitionInfo) :=
  rows.mapM fun (name, fromDay, toDay) => do
    return .new name (← date debug fromDay) (← date debug toDay)

/-- Once the partitions are listed, the statements are those of the gaps. -/
theorem after_listing {table : Table} {debug : String → String} {interval : PartitionInterval}
    {fromDay : Date} {count : Nat} {rows : List (String × String × String)}
    {existing : List PartitionInfo} (hlisted : listed debug rows = .ok existing)
    {evs : List (Event PartitionOp PartitionRet)} {result : Except StoreError Unit} :
    Run (ensurePartitions table debug interval fromDay count) (⟨.partitions, .ok rows⟩ :: evs)
        result ↔
      Run (do
        match ← createEach table
          (allGaps existing (intervals interval count (interval.start fromDay))) none with
        | some error => return .error error
        | none => return .ok ()) evs result := by
  have hbefore : Before [] (interval.start fromDay) := by simp [Before]
  have hloops := fillIntervals_eq table interval existing count none hbefore
  rw [List.append_nil] at hloops
  rw [← hloops]
  have hreply : (do
      let rows ← database "listing the partitions" (.ok rows)
      rows.mapM fun (name, fromDay, toDay) => do
        return .new name (← date debug fromDay) (← date debug toDay)) =
      (.ok existing : Except StoreError (List PartitionInfo)) := hlisted
  unfold ensurePartitions partitions
  rw [bind_assoc]
  refine (Prog.run_perform_bind _ _ _ _).trans ?_
  constructor
  · rintro ⟨reply, rest, heq, hrun⟩
    cases heq
    rw [pure_bind, hreply] at hrun
    exact hrun
  · intro hrun
    refine ⟨.ok rows, evs, rfl, ?_⟩
    rw [pure_bind, hreply]
    exact hrun

theorem run_ensurePartitions {table : Table} {debug : String → String}
    {interval : PartitionInterval} {fromDay : Date} {count : Nat}
    {rows : List (String × String × String)} {existing : List PartitionInfo}
    (hlisted : listed debug rows = .ok existing) {evs : List (Event PartitionOp PartitionRet)}
    {result : Except StoreError Unit} :
    Run (ensurePartitions table debug interval fromDay count) (⟨.partitions, .ok rows⟩ :: evs)
        result ↔
      ∃ replies, replies.length =
          (allGaps existing (intervals interval count (interval.start fromDay))).length ∧
        evs = List.zipWith (created table)
          (allGaps existing (intervals interval count (interval.start fromDay))) replies ∧
        result = outcome replies := by
  rw [after_listing hlisted, Prog.run_bind]
  have hreturn (last : Option StoreError) (rest : List (Event PartitionOp PartitionRet)) :
      Run (match last with
        | some error => return .error error
        | none => return .ok () : Maintaining (Except StoreError Unit)) rest result ↔
      rest = [] ∧ last.elim (.ok ()) .error = result := by
    cases last <;> exact Prog.run_pure _ _ _
  constructor
  · rintro ⟨first, last, rest, rfl, hrun, hend⟩
    obtain ⟨replies, hlength, rfl, rfl⟩ := run_createEach.mp hrun
    obtain ⟨rfl, rfl⟩ := (hreturn _ _).mp hend
    exact ⟨replies, hlength, List.append_nil _, rfl⟩
  · rintro ⟨replies, hlength, rfl, rfl⟩
    exact ⟨_, _, [], (List.append_nil _).symm, run_createEach.mpr ⟨replies, hlength, rfl, rfl⟩,
      (hreturn _ _).mpr ⟨rfl, rfl⟩⟩

/-! ## Filling -/

/-- The stretches are exactly what the partitions leave of the windows: each longest stretch of days
    that none holds, once. -/
structure Fills (table : Table) (existing : List PartitionInfo) (bounds : Nat → Date) (count : Nat)
    (stretches : List (Date × Date)) : Prop where
  mem : ∀ g, g ∈ stretches ↔ ∃ k < count, IsStretch existing (bounds k) (bounds (k + 1)) g
  increasing : stretches.Pairwise fun g later => g.2 ≤ later.1
  fresh : ∀ g ∈ stretches, ∀ p ∈ existing, p.toDay ≤ g.1 ∨ g.2 ≤ p.fromDay
  names : (stretches.map fun g => partitionName table g.1).Nodup
  idle : (∀ day, bounds 0 ≤ day → day < bounds count → ∃ p ∈ existing, p.Holds day) →
    stretches = []

section Filling

variable {table : Table} {interval : PartitionInterval} {fromDay : Date} {count : Nat}
  {existing : List PartitionInfo}

theorem fills_allGaps (hnonempty : ∀ p ∈ existing, p.fromDay < p.toDay) :
    Fills table existing (boundary interval fromDay) count
      (allGaps existing (intervals interval count (interval.start fromDay))) where
  mem g := by
    rw [mem_allGaps]
    constructor
    · rintro ⟨w, hw, hg⟩
      obtain ⟨k, hk, rfl⟩ := mem_windows_iff.mp hw
      exact ⟨k, hk, (mem_gaps_iff hnonempty).mp hg⟩
    · rintro ⟨k, hk, hg⟩
      exact ⟨_, mem_windows_iff.mpr ⟨k, hk, rfl⟩, (mem_gaps_iff hnonempty).mpr hg⟩
  increasing := allGaps_increasing count _
  fresh g hg := (allGaps_spec hg).2.2
  names := by
    rw [List.Nodup, List.pairwise_map]
    refine (allGaps_increasing count _).imp_of_mem fun {g later} hg hlater hle hname => ?_
    exact absurd (partitionName_injective hname) ((allGaps_spec hg).2.1.trans_le hle).ne
  idle h := allGaps_eq_nil_iff.mpr fun day hday => h day (covers_iff.mp hday).1 (covers_iff.mp hday).2

theorem holders_allGaps (hapart : existing.Pairwise Apart) {day : Date}
    (hday : boundary interval fromDay 0 ≤ day ∧ day < boundary interval fromDay count) :
    ((existing ++ (allGaps existing (intervals interval count (interval.start fromDay))).map
      fun g => PartitionInfo.new (partitionName table g.1) g.1 g.2).filter
        fun p => decide (p.Holds day)).length = 1 := by
  refine holders_length (List.pairwise_append.mpr ⟨hapart, ?_, ?_⟩) ?_
  · exact List.pairwise_map.mpr ((allGaps_increasing count _).imp Or.inl)
  · intro p hp q hq
    obtain ⟨g, hg, rfl⟩ := List.mem_map.mp hq
    exact (allGaps_spec hg).2.2 p hp
  · rcases allGaps_cover existing (covers_iff.mpr hday) with ⟨p, hp, hholds⟩ | ⟨g, hg, hin⟩
    · exact ⟨p, List.mem_append_left _ hp, hholds⟩
    · exact ⟨_, List.mem_append_right _ (List.mem_map_of_mem hg), hin⟩

end Filling

/-- Once the existing partitions are listed, `ensurePartitions` asks for exactly the stretches of the
    windows that they leave, one after the other whatever the replies, and fails exactly when one of
    them did. With no failure each day of the windows is in exactly one partition. -/
theorem ensurePartitions_fills (table : Table) (debug : String → String)
    (interval : PartitionInterval) (fromDay : Date) (count : Nat)
    {rows : List (String × String × String)} {existing : List PartitionInfo}
    (hlisted : listed debug rows = .ok existing)
    (hnonempty : ∀ p ∈ existing, p.fromDay < p.toDay) (hapart : existing.Pairwise Apart) :
    (∃ stretches, Fills table existing (boundary interval fromDay) count stretches ∧
      ∀ evs result, Run (ensurePartitions table debug interval fromDay count)
          (⟨.partitions, .ok rows⟩ :: evs) result ↔
        ∃ replies, replies.length = stretches.length ∧
          evs = List.zipWith (created table) stretches replies ∧ result = outcome replies) ∧
    (∀ replies, (∃ error, outcome replies = .error error) ↔ ∃ error, .error error ∈ replies) ∧
    (∀ evs, Run (ensurePartitions table debug interval fromDay count)
        (⟨.partitions, .ok rows⟩ :: evs) (.ok ()) →
      ∀ day, boundary interval fromDay 0 ≤ day → day < boundary interval fromDay count →
        ((existing ++ evs.filterMap made).filter fun p => decide (p.Holds day)).length = 1) ∧
    ∀ (stop day : Date) (rounds : Nat) (working : List PartitionInfo) (error : Option StoreError),
      stop.days - day.days ≤ rounds → fill table stop rounds day working error =
        fill table stop (stop.days - day.days).toNat day working error := by
  refine ⟨⟨_, fills_allGaps hnonempty, fun evs result => run_ensurePartitions hlisted⟩,
    fun replies => outcome_error_iff, fun evs hrun day hstart hstop => ?_,
    fun stop day rounds working error h => ?_⟩
  · obtain ⟨replies, hlength, rfl, hok⟩ := (run_ensurePartitions hlisted).mp hrun
    have hreplies : ∀ reply ∈ replies, reply = .ok () := by
      intro reply hreply
      cases reply with
      | ok _ => rfl
      | error error =>
        obtain ⟨failure, hfailure⟩ := outcome_error_iff.mpr ⟨error, hreply⟩
        rw [← hok] at hfailure
        cases hfailure
    rw [made_created hlength hreplies]
    exact holders_allGaps hapart ⟨hstart, hstop⟩
  · exact fill_rounds table stop working error (Int.self_le_toNat _) (by omega)

/-- 1970-01-01 is held, 1970-01-02 is missing. -/
theorem ensurePartitions_fills_secondDay : ∃ stretches,
    Fills .outbox [.new "outbox_messages_p19700101" (.fromDays 0) (.fromDays 1)]
      (boundary .day (.fromDays 0)) 2 stretches ∧ (.fromDays 1, .fromDays 2) ∈ stretches := by
  have hlisted : listed (fun text => text) [("outbox_messages_p19700101",
      (Date.fromDays 0).toText, (Date.fromDays 1).toText)] =
      .ok [.new "outbox_messages_p19700101" (.fromDays 0) (.fromDays 1)] := by
    simp only [listed, List.mapM_cons, List.mapM_nil, date, Date.parse_toText]
    rfl
  obtain ⟨stretches, hfills, _⟩ := (ensurePartitions_fills .outbox (fun text => text) .day
    (.fromDays 0) 2 hlisted (by decide) (List.pairwise_singleton _ _)).1
  refine ⟨stretches, hfills, (hfills.mem _).mpr ⟨1, by decide, ⟨by decide, by decide, ?_, ?_, ?_⟩⟩⟩
  · intro day hday _ p hp hholds
    rw [List.mem_singleton.mp hp] at hholds
    exact absurd hholds.2 (not_lt.mpr hday)
  · exact Or.inl rfl
  · exact Or.inl rfl

end SisaMessaging.Postgres.Partitions
