/-
  The in-memory transport's deliveries: how many there are, and in which order.

  `deliveries_eq`: every delivery of a copy was requeued or settled, or is in hand. `in_order`: no
  copy is handed out before the copies of earlier publishes were. A copy that comes again goes to the
  end of the queue, so `Ahead` speaks of the copies that never left it.
-/
import SisaMessaging.Runtime.InMemory

namespace SisaMessaging.Runtime.InMemory

variable {checks : Bool} {events : List Event} {world : World}

/-! ## Copies in hand -/

/-- What an event does to the copies in hand: one more, one less, or nothing. -/
def Event.Moves (hands hands' : Multiset Delivery) : Event → Prop
  | take copy => hands' = copy ::ₘ hands
  | ack copy | retry copy _ | reject copy | drop copy => hands = copy ::ₘ hands'
  | _ => hands' = hands

theorem Step.hands {world world' : World} {event : Event} (h : Step checks world event world') :
    event.Moves world.hands world'.hands := by
  cases h with
  | subscribe | publish | publishError | failPublishes | take | elapsed => rfl
  | @ack _ _ _ copy =>
    rw [Delivery.ack, Delivery.drop_settle]
    rfl
  | @reject _ _ _ copy =>
    rw [Delivery.reject, Delivery.drop_settle]
    rfl
  | @retry _ _ _ copy delay =>
    rw [Delivery.retry]
    split
    · rw [Delivery.drop_settle]
      rfl
    · rw [Delivery.drop_settle]
      rfl
  | @drop _ _ _ copy =>
    rw [Delivery.drop]
    split
    · rfl
    · split <;> rfl

/-! ## How many deliveries -/

theorem Delivery.at_eq {copy : Delivery} {name : String} {pending : Pending}
    (h : copy.at name = some pending) :
    copy.queue = name ∧ pending = ⟨copy.envelope, copy.attempt⟩ := by
  unfold Delivery.at at h
  split at h
  · rename_i hq
    cases h
    exact ⟨hq, rfl⟩
  · cases h

/-- How many copies of the publish are in subscribers' hands. -/
def inHand (world : World) (name : String) (number : Nat) : Nat :=
  (world.hands.filterMap (·.at name)).countP fun pending => pending.envelope.number = number

/-- How often a copy was acked or rejected. -/
def settlements (events : List Event) (name : String) (number : Nat) : Nat :=
  count (·.acked name) events number + count (·.rejected name) events number

theorem countP_at_cons (delivery : Delivery) (hands : Multiset Delivery) (name : String)
    (number : Nat) :
    ((delivery ::ₘ hands).filterMap (·.at name)).countP (fun pending => pending.envelope.number = number) =
      (hands.filterMap (·.at name)).countP (fun pending => pending.envelope.number = number) +
        (delivery.at name).toList.countP fun pending => pending.envelope.number = number := by
  cases hat : delivery.at name with
  | none => rw [Multiset.filterMap_cons_none _ _ hat]; rfl
  | some pending =>
    rw [Multiset.filterMap_cons_some _ _ _ hat, Multiset.countP_cons]
    simp [List.countP_singleton]

/-- Every delivery of a copy ended with a retry or a drop, or settled it, or is in hand. -/
theorem Run.deliveries_eq (h : Run checks events world) (name : String) (number : Nat) :
    deliveries events name number =
      requeues events name number + settlements events name number + inHand world name number := by
  induction h with
  | new => rfl
  | @step events event world world' _ hs ih =>
    have hmoves := hs.hands
    rw [deliveries, requeues, settlements] at ih
    rw [deliveries, requeues, settlements, count_snoc, count_snoc, count_snoc, count_snoc]
    generalize count (·.taken name) events number = taken at ih ⊢
    generalize count (·.requeued name) events number = requeued at ih ⊢
    generalize count (·.acked name) events number = acked at ih ⊢
    generalize count (·.rejected name) events number = rejected at ih ⊢
    cases event with
    | subscribe | publish | publishError | failPublishes | elapsed =>
      rw [show inHand world' name number = inHand world name number by rw [inHand, inHand, hmoves]]
      simpa [Event.taken, Event.requeued, Event.acked, Event.rejected] using ih
    | take copy =>
      have hin : inHand world' name number = inHand world name number +
          (copy.at name).toList.countP fun pending => pending.envelope.number = number := by
        rw [inHand, hmoves, countP_at_cons, inHand]
      rw [hin]
      simp only [Event.taken, Event.requeued, Event.acked, Event.rejected, Option.toList_none,
        List.countP_nil]
      omega
    | ack copy | retry copy | reject copy | drop copy =>
      have hin : inHand world name number = inHand world' name number +
          (copy.at name).toList.countP fun pending => pending.envelope.number = number := by
        rw [inHand, hmoves, countP_at_cons, inHand]
      rw [hin] at ih
      simp only [Event.taken, Event.requeued, Event.acked, Event.rejected, Option.toList_none,
        List.countP_nil]
      omega

/-- The copies of a publish that are settled or in hand, the queued and the delayed ones aside. -/
theorem Run.elsewhere (h : Run checks events world) {name : String} {envelope : ArcEnvelope}
    (hsent : Sent events name envelope)
    (hfew : requeues events name envelope.number + 1 < 2 ^ 32) :
    ((world.state.endpoints name).pending.countP
        fun pending => pending.envelope.number = envelope.number) +
      (world.tasks.filterMap (·.at name)).countP
        (fun pending => pending.envelope.number = envelope.number) +
      (settlements events name envelope.number + inHand world name envelope.number) = 1 := by
  have hone := congrArg Multiset.card (h.one_copy hsent hfew)
  rw [copiesOf, ← Multiset.countP_eq_card_filter, copies, Multiset.card_singleton] at hone
  simp only [Multiset.countP_add, Multiset.coe_countP] at hone
  rw [settlements, count, count, inHand]
  omega

/-- A copy that was never handed out is in the queue or waits out a delay. -/
theorem Run.deliveries_le (h : Run checks events world) {name : String} {envelope : ArcEnvelope}
    (hsent : Sent events name envelope)
    (hfew : requeues events name envelope.number + 1 < 2 ^ 32) :
    deliveries events name envelope.number ≤ requeues events name envelope.number + 1 := by
  have helse := h.elsewhere hsent hfew
  have heq := h.deliveries_eq name envelope.number
  omega

/-! ## In which order -/

/-- No copy that comes for the first time is behind a copy of a later publish that does, and a
    delayed copy comes again. -/
structure Ahead (world : World) (name : String) : Prop where
  queue : (world.state.endpoints name).pending.Pairwise fun first second =>
    first.attempt = 1 → second.attempt = 1 → first.envelope.number < second.envelope.number
  delayed : ∀ task ∈ world.tasks, task.queue = name → task.pending.attempt ≠ 1


theorem Ahead.same {world world' : World} {name : String} (h : Ahead world name)
    (hqueue : (world'.state.endpoints name).pending = (world.state.endpoints name).pending)
    (htasks : world'.tasks = world.tasks) : Ahead world' name where
  queue := hqueue ▸ h.queue
  delayed := htasks ▸ h.delayed

/-- A copy at the end of the queue, of a publish that is later than all, or not for the first
    time. -/
theorem pairwise_snoc {queue : List Pending} {last : Pending}
    (h : queue.Pairwise fun first second =>
      first.attempt = 1 → second.attempt = 1 → first.envelope.number < second.envelope.number)
    (hlast : last.attempt = 1 → ∀ pending ∈ queue, pending.envelope.number < last.envelope.number) :
    (queue ++ [last]).Pairwise fun first second =>
      first.attempt = 1 → second.attempt = 1 → first.envelope.number < second.envelope.number := by
  rw [List.pairwise_append]
  refine ⟨h, List.pairwise_singleton _ _, fun pending hp other ho _ hother => ?_⟩
  rw [List.mem_singleton.mp ho] at hother ⊢
  exact hlast hother pending hp

theorem Run.ahead (h : Run checks events world) {name : String}
    (hfew : ∀ number, requeues events name number + 1 < 2 ^ 32) : Ahead world name := by
  induction h with
  | new => exact ⟨List.Pairwise.nil, fun _ hm => absurd hm (Multiset.notMem_zero _)⟩
  | @step events event world world' hrun hs ih =>
    have hbefore : ∀ number, requeues events name number + 1 < 2 ^ 32 := by
      intro number
      have := hfew number
      rw [requeues_snoc] at this
      omega
    have ih := ih hbefore
    -- A copy that comes again has the next number, which is not the first.
    have again : ∀ delivery : Delivery, event.requeued name = some ⟨delivery.envelope, delivery.attempt⟩ →
        ∀ pending, delivery.nextAttempt checks = some pending → pending.attempt ≠ 1 := by
      intro delivery hgone pending hnext
      obtain ⟨rest, hcopies, _⟩ := hs.moves hrun.unsettled events name
      rw [hgone] at hcopies
      have hmem : (⟨delivery.envelope, delivery.attempt⟩ : Pending) ∈ copies events world name := by
        rw [hcopies]
        simp
      have hsent := (hrun.sent name).1 _ hmem
      have hone := hrun.one_copy hsent (hbefore _)
      have hin : (⟨delivery.envelope, delivery.attempt⟩ : Pending) ∈
          copiesOf events world name delivery.envelope.number := Multiset.mem_filter.mpr ⟨hmem, rfl⟩
      rw [hone, Multiset.mem_singleton, Pending.mk.injEq] at hin
      have hattempt : delivery.attempt = requeues events name delivery.envelope.number + 1 := hin.2
      have hnumber := hfew delivery.envelope.number
      rw [requeues_snoc, hgone] at hnumber
      have hfits : delivery.attempt + 1 < 2 ^ 32 := by
        simp only [Option.toList_some, List.countP_singleton, decide_true, if_true] at hnumber
        omega
      rw [Delivery.nextAttempt, if_pos hfits] at hnext
      cases hnext
      dsimp only
      omega
    cases hs with
    | @subscribe state hands tasks endpoint =>
      refine ih.same ?_ rfl
      by_cases hq : name = endpoint.name
      · rw [State.subscribe, hq, State.update_self]
      · rw [State.subscribe, State.update_of_ne hq]
    | @publish state hands tasks envelope =>
      rw [State.publish]
      split
      · exact ih
      · refine ⟨?_, ih.delayed⟩
        dsimp only
        split
        · refine pairwise_snoc ih.queue fun _ pending hp => ?_
          have hsent := (hrun.sent name).1 pending (by simp [copies, hp])
          have hlt := hsent.number_lt
          rw [← hrun.follows.1] at hlt
          exact hlt
        · exact ih.queue
    | @publishError state hands tasks endpoint envelope =>
      refine ih.same ?_ rfl
      rw [State.publishError]
      split <;> rfl
    | failPublishes => exact ih.same rfl rfl
    | @take state hands tasks queue envelope attempt rest hpending =>
      refine ⟨?_, ih.delayed⟩
      dsimp only
      by_cases hq : name = queue
      · have hqueue := ih.queue
        rw [hq] at hqueue ⊢
        rw [State.update_self]
        exact (List.pairwise_cons.mp (hpending ▸ hqueue)).2
      · rw [State.update_of_ne hq]
        exact ih.queue
    | @ack state hands tasks delivery =>
      rw [Delivery.ack, Delivery.drop_settle]
      exact ih.same rfl rfl
    | @retry state hands tasks delivery delay =>
      rw [Delivery.retry]
      have hnext : delivery.settle.nextAttempt checks = delivery.nextAttempt checks := rfl
      rw [hnext]
      cases hcopy : delivery.nextAttempt checks with
      | none =>
        rw [Delivery.drop_settle]
        exact ih.same rfl rfl
      | some pending =>
        rw [Delivery.drop_settle]
        refine ⟨ih.queue, fun task hm hqueue => ?_⟩
        rcases Multiset.mem_cons.mp hm with rfl | hm
        · exact again delivery (if_pos hqueue) pending hcopy
        · exact ih.delayed task hm hqueue
    | @reject state hands tasks delivery =>
      rw [Delivery.reject, Delivery.drop_settle]
      refine ih.same ?_ rfl
      by_cases hq : name = delivery.queue
      · dsimp only
        rw [hq, State.update_self]
      · dsimp only
        rw [State.update_of_ne hq]
    | @drop state hands tasks delivery =>
      rw [Delivery.drop]
      split
      · exact ih.same rfl rfl
      · cases hcopy : delivery.nextAttempt checks with
        | none => exact ih.same rfl rfl
        | some pending =>
          refine ⟨?_, ih.delayed⟩
          dsimp only
          by_cases hq : name = delivery.queue
          · rw [hq, State.update_self, ← hq]
            exact pairwise_snoc ih.queue fun hfirst _ _ =>
              absurd hfirst (again delivery (if_pos hq.symm) pending hcopy)
          · rw [State.update_of_ne hq]
            exact ih.queue
    | @elapsed state hands tasks task =>
      have hdelayed : ∀ other ∈ tasks, other.queue = name → other.pending.attempt ≠ 1 :=
        fun other hm => ih.delayed other (Multiset.mem_cons_of_mem hm)
      refine ⟨?_, hdelayed⟩
      dsimp only
      by_cases hq : name = task.queue
      · rw [hq, State.update_self, ← hq]
        exact pairwise_snoc ih.queue fun hfirst _ _ =>
          absurd hfirst (ih.delayed task (Multiset.mem_cons_self _ _) hq.symm)
      · rw [State.update_of_ne hq]
        exact ih.queue

/-- A copy that was never handed out is in the queue, with attempt 1. -/
theorem Run.waits (h : Run checks events world) {name : String} {envelope : ArcEnvelope}
    (hsent : Sent events name envelope)
    (hfew : ∀ number, requeues events name number + 1 < 2 ^ 32)
    (hnone : deliveries events name envelope.number = 0) :
    (⟨envelope, 1⟩ : Pending) ∈ (world.state.endpoints name).pending := by
  have heq := h.deliveries_eq name envelope.number
  have helse := h.elsewhere hsent (hfew _)
  have hone := h.one_copy hsent (hfew _)
  have hrequeues : requeues events name envelope.number = 0 := by omega
  rw [hrequeues] at hone
  -- The one copy is in the queue or delayed, and a delayed one isn't there for the first time.
  have mem {pending : Pending} (hp : pending ∈ copies events world name)
      (hn : pending.envelope.number = envelope.number) : pending = ⟨envelope, 1⟩ := by
    have hin : pending ∈ copiesOf events world name envelope.number :=
      Multiset.mem_filter.mpr ⟨hp, hn⟩
    rw [hone] at hin
    exact Multiset.mem_singleton.mp hin
  have hdelayed : (world.tasks.filterMap (·.at name)).countP
      (fun pending => pending.envelope.number = envelope.number) = 0 := by
    refine Multiset.countP_eq_zero.mpr fun pending hp hn => ?_
    obtain rfl := mem (by simp [copies, hp]) hn
    obtain ⟨task, htask, hat⟩ := (Multiset.mem_filterMap _ _).mp hp
    unfold Task.at at hat
    split at hat
    · rename_i hqueue
      refine (h.ahead hfew).delayed task htask hqueue ?_
      rw [Option.some.inj hat]
    · cases hat
  have hpos : 0 < (world.state.endpoints name).pending.countP
      fun pending => pending.envelope.number = envelope.number := by omega
  obtain ⟨pending, hp, hn⟩ := List.countP_pos_iff.mp hpos
  obtain rfl := mem (by simp [copies, hp]) (of_decide_eq_true hn)
  exact hp

theorem Run.before {more : List Event} (h : Run checks (events ++ more) world) :
    ∃ world', Run checks events world' := by
  induction more using List.reverseRecOn generalizing world with
  | nil => exact ⟨world, by simpa using h⟩
  | append_singleton more event ih =>
    rw [← List.append_assoc] at h
    generalize hall : events ++ more ++ [event] = all at h
    cases h with
    | new => simp at hall
    | step h _ =>
      obtain ⟨rfl, _⟩ := List.append_inj' hall rfl
      exact ih h

theorem Sent.of_lt {more : List Event} {name : String} {envelope : ArcEnvelope}
    (h : Sent (events ++ more) name envelope)
    (hlt : envelope.number < (events.filterMap Event.accepted).length) :
    Sent events name envelope := by
  induction more using List.reverseRecOn with
  | nil => simpa using h
  | append_singleton more event ih =>
    rw [← List.append_assoc] at h
    rcases sent_snoc.mp h with h | ⟨_, hnumber, _⟩
    · exact ih h
    · rw [hnumber, List.filterMap_append, List.length_append] at hlt
      omega

theorem count_append (f : Event → Option Pending) (events more : List Event) (number : Nat) :
    count f (events ++ more) number = count f events number + count f more number := by
  rw [count, count, count, List.filterMap_append, List.countP_append]

/-- In every run, a copy of a publish is handed out only after the endpoint's copies of all earlier
    publishes were, whoever asks and however often copies come again. -/
theorem Run.in_order {before after : List Event} {delivery : Delivery} {first : ArcEnvelope}
    (h : Run checks (before ++ .take delivery :: after) world)
    (hfew : ∀ number,
      requeues (before ++ .take delivery :: after) delivery.queue number + 1 < 2 ^ 32)
    (hsent : Sent (before ++ .take delivery :: after) delivery.queue first)
    (hearlier : first.number < delivery.envelope.number) :
    0 < deliveries before delivery.queue first.number := by
  induction hlength : before.length using Nat.strongRecOn
    generalizing before after delivery world with
  | ind length ih =>
    obtain ⟨world', htaken⟩ : ∃ world', Run checks (before ++ [.take delivery]) world' :=
      Run.before (by rwa [List.append_assoc] : Run checks (before ++ [.take delivery] ++ after) world)
    generalize hall : before ++ [.take delivery] = all at htaken
    cases htaken with
    | new => simp at hall
    | @step events event world₀ _ hrun hs =>
      obtain ⟨rfl, hlast⟩ := List.append_inj' hall rfl
      obtain rfl := List.singleton_inj.mp hlast
      have hfewer : ∀ number, requeues before delivery.queue number + 1 < 2 ^ 32 := by
        intro number
        have := hfew number
        rw [requeues, count_append] at this
        rw [requeues]
        omega
      cases hs with
      | @take state hands tasks name envelope attempt rest hpending =>
        dsimp only at hfew hsent hearlier hfewer ⊢
        have hhead : (⟨envelope, attempt⟩ : Pending) ∈
            copies before ⟨state, hands, tasks⟩ name := by simp [copies, hpending]
        have hnow := (hrun.sent name).1 _ hhead
        have hbefore : Sent before name first := hsent.of_lt (hearlier.trans hnow.number_lt)
        by_contra hnone
        have hwaits := hrun.waits hbefore hfewer (by omega)
        rw [hpending, List.mem_cons] at hwaits
        rcases hwaits with heq | hwaits
        · cases heq
          exact absurd hearlier (Nat.lt_irrefl _)
        · by_cases hfirst : attempt = 1
          · have hqueue := (hrun.ahead hfewer).queue
            rw [hpending, List.pairwise_cons] at hqueue
            exact Nat.lt_asymm hearlier (hqueue.1 _ hwaits hfirst rfl)
          · -- The copy was handed out before, and the earlier one before that.
            have hone := hrun.one_copy hnow (hfewer _)
            have hin : (⟨envelope, attempt⟩ : Pending) ∈
                copiesOf before ⟨state, hands, tasks⟩ name envelope.number :=
              Multiset.mem_filter.mpr ⟨hhead, rfl⟩
            rw [hone, Multiset.mem_singleton, Pending.mk.injEq] at hin
            have heq := hrun.deliveries_eq name envelope.number
            have htook : 0 < deliveries before name envelope.number := by
              have : attempt = requeues before name envelope.number + 1 := hin.2
              omega
            obtain ⟨pending, hp, hn⟩ := List.countP_pos_iff.mp htook
            obtain ⟨event, he, htaken⟩ := List.mem_filterMap.mp hp
            obtain ⟨b₁, b₂, rfl⟩ := List.append_of_mem he
            cases event with
            | take earlier =>
              obtain ⟨hqueue, rfl⟩ := Delivery.at_eq htaken
              subst hqueue
              have hlt : first.number < earlier.envelope.number := by
                rw [of_decide_eq_true hn]
                exact hearlier
              have := ih b₁.length (by simp [← hlength]) hrun hfewer hbefore hlt rfl
              rw [deliveries, count_append] at hnone
              rw [deliveries] at this
              omega
            | _ => cases htaken

theorem in_order_shipped : 0 < deliveries [.subscribe billingSpec, .publish orderShipped (.ok ()),
    .publish orderShipped (.ok ()), .take ⟨shipped, 1, "billing", false⟩] "billing" 0 := by
  have hrun : ∃ world, Run true ([.subscribe billingSpec, .publish orderShipped (.ok ()),
      .publish orderShipped (.ok ()), .take ⟨shipped, 1, "billing", false⟩] ++
        [.take ⟨⟨1, orderShipped⟩, 1, "billing", false⟩]) world :=
    ⟨_, .step (.step (.step (.step (.step .new (.subscribe billingSpec)) (.publish orderShipped))
      (.publish orderShipped)) (.take rfl)) (.take rfl)⟩
  obtain ⟨world, hrun⟩ := hrun
  have hsent : Sent ([.subscribe billingSpec, .publish orderShipped (.ok ()),
      .publish orderShipped (.ok ()), .take ⟨shipped, 1, "billing", false⟩] ++
        [.take ⟨⟨1, orderShipped⟩, 1, "billing", false⟩]) "billing" shipped := by
    refine ⟨[.subscribe billingSpec], _, rfl, rfl, ?_⟩
    simp [Event.subscribed, billingSpec, shipped]
  exact Run.in_order hrun (fun _ => Nat.one_lt_two_pow (by decide)) hsent (by decide)

end SisaMessaging.Runtime.InMemory
