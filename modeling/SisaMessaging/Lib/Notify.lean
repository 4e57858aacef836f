/-
  A notifier that stores at most one permit.

  `notifyOne` wakes the one that has waited longest, or stores a permit when nobody waits. A wait
  takes the permit first (`poll`). Dropping a wait that was woken but hasn't seen it yet hands the
  wake-up on (`cancel`). Permits merge, so there may be fewer wake-ups than calls of `notifyOne`;
  `Tidy` says that a permit is stored only when nobody waits.
-/
import Mathlib.Tactic.Common

namespace SisaMessaging.Lib

/-- A notifier, and whoever waits for it. -/
structure Notify (ι : Type) where
  permit : Bool
  /-- Whoever waits, the longest first. -/
  waiters : List ι
  /-- Whoever was woken and hasn't seen it yet. -/
  woken : List ι

namespace Notify

variable {ι : Type}

def new : Notify ι := ⟨false, [], []⟩

def notifyOne (notify : Notify ι) : Notify ι :=
  match notify.waiters with
  | [] => { notify with permit := true }
  | i :: waiters => { notify with waiters, woken := notify.woken ++ [i] }

/-- The first look of a wait: takes the permit, or joins the waiters. -/
def poll (notify : Notify ι) (i : ι) : Notify ι :=
  if notify.permit then { notify with permit := false }
  else { notify with waiters := notify.waiters ++ [i] }

variable [DecidableEq ι]

/-- A woken one sees it. -/
def resume (notify : Notify ι) (i : ι) : Notify ι := { notify with woken := notify.woken.erase i }

/-- A wait is dropped. -/
def cancel (notify : Notify ι) (i : ι) : Notify ι :=
  if i ∈ notify.waiters then { notify with waiters := notify.waiters.erase i }
  else (notify.resume i).notifyOne

/-- A permit is stored only when nobody waits. -/
def Tidy (notify : Notify ι) : Prop := notify.permit = true → notify.waiters = []

omit [DecidableEq ι] in
theorem notifyOne_of_nil {notify : Notify ι} (h : notify.waiters = []) :
    notify.notifyOne = { notify with permit := true } := by
  rw [notifyOne, h]

omit [DecidableEq ι] in
theorem notifyOne_of_cons {notify : Notify ι} {i : ι} {waiters : List ι}
    (h : notify.waiters = i :: waiters) :
    notify.notifyOne = { notify with waiters, woken := notify.woken ++ [i] } := by
  rw [notifyOne, h]

omit [DecidableEq ι] in
/-- Stores a permit, or wakes one of the waiters. -/
theorem notifyOne_counts (notify : Notify ι) :
    (notify.waiters = [] ∧ notify.notifyOne = { notify with permit := true }) ∨
      (notify.waiters.length = notify.notifyOne.waiters.length + 1 ∧
        notify.notifyOne.woken.length = notify.woken.length + 1 ∧
        notify.notifyOne.permit = notify.permit) := by
  cases hw : notify.waiters with
  | nil =>
    rw [← hw]
    exact .inl ⟨rfl, notifyOne_of_nil hw⟩
  | cons i waiters =>
    rw [notifyOne_of_cons hw]
    exact .inr ⟨rfl, by simp, rfl⟩

omit [DecidableEq ι] in
theorem Tidy.notifyOne {notify : Notify ι} (h : notify.Tidy) : notify.notifyOne.Tidy := by
  cases hw : notify.waiters with
  | nil =>
    rw [notifyOne_of_nil hw]
    exact fun _ => hw
  | cons i waiters =>
    rw [notifyOne_of_cons hw]
    intro hpermit
    rw [h hpermit] at hw
    cases hw

end Notify

end SisaMessaging.Lib
