/-
  The protocol of a round.

  `RoundPhase` keeps what a round still holds of its claim: the claimed rows it hasn't marked, the
  records the broker accepted, and the one whose publish was refused and that goes back next.
  `roundProtocol` says which statement that allows, and `round_obeys` that `round` follows it.
-/
import SisaMessaging.Runtime.Dispatch

namespace SisaMessaging.Runtime

open SisaMessaging.Core SisaMessaging.Postgres SisaMessaging.Lib
open SisaMessaging.Lib.Prog (Obeys Protocol)

/-- What a round holds of its claim. -/
inductive RoundPhase where
  | fresh
  | holding (unmarked : List ClaimedRow) (accepted : List OutboxRecord)
      (refused : Option OutboxRecord)

/-- The record is of a row that isn't marked. -/
def Unmarked (uuids : UuidFormat) (unmarked : List ClaimedRow) (r : OutboxRecord) : Prop :=
  ∃ row ∈ unmarked, record uuids row = .ok r

namespace RoundPhase

variable (uuids : UuidFormat) (times : PgTimes) (settings : DispatchSettings)

def Allowed : RoundPhase → DispatchOp → Prop
  | _, .now | _, .stopping => True
  | fresh, .claimDue _ lease => lease = settings.lease
  | holding unmarked _ none, .failUnreadable mark _ =>
    ∃ row ∈ unmarked, row.mark = mark ∧ ∃ error, record uuids row = .error error
  | holding unmarked _ none, .publish r _ => Unmarked uuids unmarked r
  | holding unmarked _ (some r), .putBack mark _ _ => mark = markOf r ∧ Unmarked uuids unmarked r
  | holding unmarked _ (some r), .setFailed mark _ =>
    mark = markOf r ∧ Unmarked uuids unmarked r ∧
      settings.retry.isLast (failedAttempt r) = true
  | holding unmarked accepted none, .setDispatched marks =>
    marks = accepted.map markOf ∧ ∀ r ∈ accepted, Unmarked uuids unmarked r
  | _, _ => False

@[simp] theorem allowed_claimDue {g : RoundPhase} {limit : Nat} {lease : Duration} :
    g.Allowed uuids settings (.claimDue limit lease) ↔ g = fresh ∧ lease = settings.lease := by
  cases g <;> simp [Allowed]

@[simp] theorem allowed_failUnreadable {g : RoundPhase} {mark : Mark} {error : String} :
    g.Allowed uuids settings (.failUnreadable mark error) ↔
      ∃ unmarked accepted, g = holding unmarked accepted none ∧
        ∃ row ∈ unmarked, row.mark = mark ∧ ∃ error, record uuids row = .error error := by
  rcases g with _ | ⟨unmarked, accepted, _ | r⟩ <;> simp [Allowed]

@[simp] theorem allowed_setDispatched {g : RoundPhase} {marks : List Mark} :
    g.Allowed uuids settings (.setDispatched marks) ↔
      ∃ unmarked accepted, g = holding unmarked accepted none ∧ marks = accepted.map markOf ∧
        ∀ r ∈ accepted, Unmarked uuids unmarked r := by
  rcases g with _ | ⟨unmarked, accepted, _ | r⟩ <;> simp [Allowed]

@[simp] theorem allowed_putBack {g : RoundPhase} {mark : Mark} {error : String}
    {delay : Duration} :
    g.Allowed uuids settings (.putBack mark error delay) ↔
      ∃ unmarked accepted r, g = holding unmarked accepted (some r) ∧ mark = markOf r ∧
        Unmarked uuids unmarked r := by
  rcases g with _ | ⟨unmarked, accepted, _ | r⟩ <;> simp [Allowed]

@[simp] theorem allowed_setFailed {g : RoundPhase} {mark : Mark} {error : String} :
    g.Allowed uuids settings (.setFailed mark error) ↔
      ∃ unmarked accepted r, g = holding unmarked accepted (some r) ∧ mark = markOf r ∧
        Unmarked uuids unmarked r ∧ settings.retry.isLast (failedAttempt r) = true := by
  rcases g with _ | ⟨unmarked, accepted, _ | r⟩ <;> simp [Allowed]

@[simp] theorem allowed_publish {g : RoundPhase} {r : OutboxRecord} {deadline : Nat} :
    g.Allowed uuids settings (.publish r deadline) ↔
      ∃ unmarked accepted, g = holding unmarked accepted none ∧ Unmarked uuids unmarked r := by
  rcases g with _ | ⟨unmarked, accepted, _ | r⟩ <;> simp [Allowed]

/-- The rows that a mark of another row leaves. -/
def without (mark : Mark) (unmarked : List ClaimedRow) : List ClaimedRow :=
  unmarked.filter fun row => ¬row.mark.SameRow times mark

def next : RoundPhase → (op : DispatchOp) → DispatchRet op → RoundPhase
  | fresh, .claimDue _ _, .ok rows => holding rows [] none
  | fresh, .claimDue _ _, .error _ => holding [] [] none
  | holding unmarked accepted _, .failUnreadable mark _, _ =>
    holding (without times mark unmarked) accepted none
  | holding unmarked accepted _, .publish r _, .accepted =>
    holding unmarked (accepted ++ [r]) none
  | holding unmarked accepted _, .publish r _, .refused _ => holding unmarked accepted (some r)
  | holding unmarked accepted _, .putBack mark _ _, _ =>
    holding (without times mark unmarked) accepted none
  | holding unmarked accepted _, .setFailed mark _, _ =>
    holding (without times mark unmarked) accepted none
  | holding _ _ _, .setDispatched _, _ => holding [] [] none
  | g, _, _ => g

end RoundPhase

/-- A record's mark finds the row it was read from, or no row. -/
def Rereads (uuids : UuidFormat) (times : PgTimes) (row : ClaimedRow) : Prop :=
  ∀ r, record uuids row = .ok r → ∀ key, (markOf r).key times = some key →
    row.mark.key times = some key

/-- The rows are different rows. -/
def Distinct (times : PgTimes) (rows : List ClaimedRow) : Prop :=
  rows.Pairwise fun row other => ¬row.mark.SameRow times other.mark

/-- What a claim's reply promises. -/
structure ClaimReply (uuids : UuidFormat) (times : PgTimes) (rows : List ClaimedRow) : Prop where
  distinct : Distinct times rows
  rereads : ∀ row ∈ rows, Rereads uuids times row

def roundProtocol (uuids : UuidFormat) (times : PgTimes) (settings : DispatchSettings) :
    Protocol DispatchOp DispatchRet RoundPhase where
  allowed := RoundPhase.Allowed uuids settings
  replies := fun _ op reply => match op, reply with
    | .claimDue _ _, .ok rows => ClaimReply uuids times rows
    | _, _ => True
  next := RoundPhase.next times

/-! ## `round` follows it -/

section Obeys

variable {uuids : UuidFormat} {times : PgTimes} {settings : DispatchSettings}

theorem mem_without {mark : Mark} {unmarked : List ClaimedRow} {row : ClaimedRow} :
    row ∈ RoundPhase.without times mark unmarked ↔
      row ∈ unmarked ∧ ¬row.mark.SameRow times mark := by
  simp [RoundPhase.without]

/-- Reading the claimed rows marks the ones that aren't records. The rows of the records stay. -/
theorem readRows_obeys (debug : String → String) (rows : List ClaimedRow) {unmarked : List ClaimedRow}
    (hu : ∀ row ∈ rows, row ∈ unmarked) (hd : Distinct times rows) :
    Obeys (roundProtocol uuids times settings)
      (fun g result => ∃ left, g = .holding left [] none ∧
        (∀ row ∈ left, row ∈ unmarked) ∧
        (∀ row ∈ unmarked, (∀ other ∈ rows, ¬row.mark.SameRow times other.mark) → row ∈ left) ∧
        ∀ records, result = .ok records → ∃ kept : List ClaimedRow,
          kept.Sublist rows ∧ (∀ row ∈ kept, row ∈ left) ∧
          kept.map (record uuids) = records.map .ok)
      (.holding unmarked [] none) (readRows uuids debug rows) := by
  induction rows generalizing unmarked with
  | nil =>
    refine ⟨unmarked, rfl, fun _ h => h, fun _ h _ => h, ?_⟩
    intro records h
    cases h
    exact ⟨[], List.nil_sublist _, by simp, rfl⟩
  | cons row rows ih =>
    obtain ⟨hrow, hrows⟩ := List.pairwise_cons.mp hd
    unfold readRows
    split
    · rename_i r hr
      apply (ih (fun other ho => hu other (List.mem_cons_of_mem _ ho)) hrows).bind
      rintro g result ⟨left, rfl, hsub, hleft, hrecords⟩
      have hin : row ∈ left := hleft row (hu row List.mem_cons_self) hrow
      have hleft' : ∀ row' ∈ unmarked,
          (∀ other ∈ row :: rows, ¬row'.mark.SameRow times other.mark) → row' ∈ left :=
        fun row' hm hne => hleft row' hm fun other ho => hne other (List.mem_cons_of_mem _ ho)
      cases result with
      | error error => exact ⟨left, rfl, hsub, hleft', by simp⟩
      | ok records =>
        refine ⟨left, rfl, hsub, hleft', ?_⟩
        intro records' h
        cases h
        obtain ⟨kept, hk, hkept, hmap⟩ := hrecords records rfl
        refine ⟨row :: kept, hk.cons_cons row, List.forall_mem_cons.mpr ⟨hin, hkept⟩, ?_⟩
        rw [List.map_cons, List.map_cons, hr, hmap]
    · rename_i error hr
      refine ⟨⟨row, hu row List.mem_cons_self, rfl, error, hr⟩, ?_⟩
      intro reply _
      have hstay : ∀ other ∈ rows, other ∈ RoundPhase.without times row.mark unmarked :=
        fun other ho => mem_without.mpr ⟨hu other (List.mem_cons_of_mem _ ho),
          fun h => hrow other ho h.symm⟩
      cases reply with
      | error failed =>
        refine ⟨_, rfl, fun row' hm => (mem_without.mp hm).1, ?_, by simp⟩
        exact fun row' hm hne => mem_without.mpr ⟨hm, hne row List.mem_cons_self⟩
      | ok _ =>
        apply (ih hstay hrows).mono
        rintro g result ⟨left, rfl, hsub, hleft, hrecords⟩
        refine ⟨left, rfl, fun row' hm => (mem_without.mp (hsub row' hm)).1, ?_, ?_⟩
        · intro row' hm hne
          exact hleft row' (mem_without.mpr ⟨hm, hne row List.mem_cons_self⟩)
            fun other ho => hne other (List.mem_cons_of_mem _ ho)
        · intro records h
          obtain ⟨kept, hk, hin, hmap⟩ := hrecords records h
          exact ⟨kept, hk.cons row, hin, hmap⟩

/-- The records are of different rows that aren't marked. -/
def Records (uuids : UuidFormat) (times : PgTimes) (unmarked : List ClaimedRow)
    (records : List OutboxRecord) : Prop :=
  ∃ rows, rows.map (record uuids) = records.map .ok ∧ (∀ row ∈ rows, row ∈ unmarked) ∧
    Distinct times rows

theorem Records.unmarked {unmarked : List ClaimedRow} {records : List OutboxRecord}
    (h : Records uuids times unmarked records) {r : OutboxRecord} (hm : r ∈ records) :
    Unmarked uuids unmarked r := by
  obtain ⟨rows, hmap, hin, _⟩ := h
  have hok : (.ok r : Except RecordError OutboxRecord) ∈ rows.map (record uuids) := by
    rw [hmap]
    exact List.mem_map_of_mem hm
  obtain ⟨row, hrow, he⟩ := List.mem_map.mp hok
  exact ⟨row, hin row hrow, he⟩

/-- Marking one record's row leaves the others unmarked. -/
theorem Records.without {unmarked : List ClaimedRow} {before after : List OutboxRecord}
    {r : OutboxRecord} (h : Records uuids times unmarked (before ++ r :: after))
    (hr : ∀ row ∈ unmarked, Rereads uuids times row) :
    Records uuids times (RoundPhase.without times (markOf r) unmarked) (before ++ after) := by
  obtain ⟨rows, hmap, hin, hd⟩ := h
  rw [List.map_append, List.map_cons] at hmap
  obtain ⟨first, last, rfl, hfirst, hlast⟩ := List.map_eq_append_iff.mp hmap
  obtain ⟨row, rest, rfl, hrow, hrest⟩ := List.map_eq_cons_iff.mp hlast
  obtain ⟨hd1, hd2, hd3⟩ := List.pairwise_append.mp hd
  obtain ⟨hd2, hd4⟩ := List.pairwise_cons.mp hd2
  have hmark : ∀ other : ClaimedRow, ¬other.mark.SameRow times row.mark →
      ¬other.mark.SameRow times (markOf r) := by
    intro other hne hsame
    obtain ⟨key, hkey⟩ := Option.ne_none_iff_exists'.mp hsame.1
    have := hr row (hin row (by simp)) r hrow key (hsame.2.symm.trans hkey)
    exact hne ⟨hsame.1, hkey.trans this.symm⟩
  refine ⟨first ++ rest, by rw [List.map_append, hfirst, hrest, List.map_append], ?_, ?_⟩
  · intro other ho
    rcases List.mem_append.mp ho with ho | ho
    · exact mem_without.mpr ⟨hin other (List.mem_append_left _ ho),
        hmark other (hd3 other ho row List.mem_cons_self)⟩
    · exact mem_without.mpr ⟨hin other (by simp [ho]),
        hmark other fun h => hd2 other ho h.symm⟩
  · exact List.pairwise_append.mpr ⟨hd1, hd4, fun a ha b hb => hd3 a ha b
      (List.mem_cons_of_mem _ hb)⟩

/-- After a refused publish the record's row is marked. -/
theorem putBack_obeys {unmarked : List ClaimedRow} {accepted : List OutboxRecord}
    {r : OutboxRecord} (error : String) (h : Unmarked uuids unmarked r) :
    Obeys (roundProtocol uuids times settings)
      (fun g _ => g = .holding (RoundPhase.without times (markOf r) unmarked) accepted none)
      (.holding unmarked accepted (some r)) (putBack settings r error) := by
  unfold putBack
  split
  · rename_i hlast
    exact ⟨⟨rfl, h, hlast⟩, fun _ _ => rfl⟩
  · exact ⟨⟨rfl, h⟩, fun _ _ => rfl⟩

theorem past_obeys {g : RoundPhase} (claimedAt : Nat) :
    Obeys (roundProtocol uuids times settings) (fun g' _ => g' = g) g (past settings claimedAt) := by
  have hnext : ∀ op : DispatchOp, ∀ reply : DispatchRet op, op = .now ∨ op = .stopping →
      RoundPhase.next times g op reply = g := by
    rintro op reply (rfl | rfl) <;> cases g <;> rfl
  have hallowed : ∀ op : DispatchOp, op = .now ∨ op = .stopping →
      RoundPhase.Allowed uuids settings g op := by
    rintro op (rfl | rfl) <;> cases g <;> trivial
  refine ⟨hallowed _ (Or.inr rfl), ?_⟩
  intro stopping _
  cases stopping with
  | true => exact hnext .stopping true (Or.inr rfl)
  | false =>
    have hsame : (roundProtocol uuids times settings).next g .stopping false = g :=
      hnext .stopping false (Or.inr rfl)
    rw [hsame]
    exact ⟨hallowed _ (Or.inl rfl), fun now _ => hnext .now now (Or.inl rfl)⟩

/-- The loop keeps the rows of the accepted records unmarked, and of those still to come. -/
theorem publishRecords_obeys (claimedAt : Nat) (accepted records : List OutboxRecord)
    {unmarked : List ClaimedRow}
    (hu : Records uuids times unmarked (accepted ++ records))
    (hr : ∀ row ∈ unmarked, Rereads uuids times row) :
    Obeys (roundProtocol uuids times settings)
      (fun g published => ∃ left, g = .holding left (accepted ++ published) none ∧
        ∀ r ∈ accepted ++ published, Unmarked uuids left r)
      (.holding unmarked accepted none) (publishRecords settings claimedAt records) := by
  induction records generalizing unmarked accepted with
  | nil => exact ⟨unmarked, by rw [List.append_nil], fun r hm => hu.unmarked hm⟩
  | cons record records ih =>
    -- The loop ends here, with nothing more published.
    have stop : ∃ left, RoundPhase.holding unmarked accepted none =
        .holding left (accepted ++ []) none ∧ ∀ r ∈ accepted ++ [], Unmarked uuids left r := by
      rw [List.append_nil]
      exact ⟨unmarked, rfl, fun r hm => hu.unmarked (List.mem_append_left _ hm)⟩
    unfold publishRecords
    apply (past_obeys claimedAt).bind
    rintro g isPast rfl
    cases isPast with
    | true => exact stop
    | false =>
      have hrecord : Unmarked uuids unmarked record := hu.unmarked (by simp)
      refine ⟨hrecord, ?_⟩
      intro reply _
      cases reply with
      | elapsed => exact stop
      | accepted =>
        rw [← List.singleton_append, ← List.append_assoc] at hu
        apply (ih _ hu hr).bind
        rintro g published ⟨left, rfl, hleft⟩
        rw [List.append_assoc, List.singleton_append] at hleft ⊢
        exact ⟨left, rfl, hleft⟩
      | refused error =>
        apply (putBack_obeys error.toText hrecord).bind
        rintro g _ rfl
        exact ih _ (hu.without hr) fun row hm => hr row (mem_without.mp hm).1

/-- Whatever the replies are, as long as a claim keeps its promise, a round follows the protocol. -/
theorem round_obeys (debug : String → String) (settings : DispatchSettings) :
    Obeys (roundProtocol uuids times settings) (fun _ _ => True) .fresh
      (round uuids debug settings) := by
  refine ⟨trivial, ?_⟩
  intro claimedAt _
  -- The claim, with what its rows promise.
  have claimed : Obeys (roundProtocol uuids times settings)
      (fun g result => ∀ records, result = .ok records → ∃ left, g = .holding left [] none ∧
        Records uuids times left records ∧ ∀ row ∈ left, Rereads uuids times row) .fresh
      (claim uuids debug settings.batchSize settings.lease) := by
    refine ⟨rfl, ?_⟩
    intro reply hreply
    cases reply with
    | error error => exact fun records h => by cases h
    | ok rows =>
      apply (readRows_obeys debug rows (fun _ h => h) hreply.distinct).mono
      rintro g result ⟨left, rfl, hsub, _, hrecords⟩ records h
      obtain ⟨kept, hk, hin, hmap⟩ := hrecords records h
      exact ⟨left, rfl, ⟨kept, hmap, hin, hreply.distinct.sublist hk⟩,
        fun row hm => hreply.rereads row (hsub row hm)⟩
  apply claimed.bind
  intro g result hresult
  cases result with
  | error error => trivial
  | ok records =>
    obtain ⟨left, rfl, hu, hr⟩ := hresult records rfl
    apply (publishRecords_obeys claimedAt [] records hu hr).bind
    rintro g published ⟨left, rfl, hu⟩
    split
    · exact ⟨⟨rfl, hu⟩, fun _ _ => trivial⟩
    · trivial

end Obeys

end SisaMessaging.Runtime
