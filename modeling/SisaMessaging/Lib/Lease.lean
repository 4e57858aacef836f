/-
  Leases whose due time is also the fencing token.

  A lease is taken when it is due, until a later due time, and that time is what its taker later
  shows to change it. Such tokens go back and forth: a taker may put the lease back with an earlier
  due time. `Guards` is what stays true of a taker's token whatever the others do, as long as the
  clock has advanced past the lease's last change at each change (`Guards.take`, `Guards.change`):
  a token that matches is the one of the last taker (`Guards.last`).
-/
import Mathlib.Order.Lattice

namespace SisaMessaging.Lib

/-- A lease taken by takers `ι`, at times `T`. -/
structure Lease (ι T : Type) where
  due : T
  /-- When it last changed. -/
  stamp : T
  /-- Who took it, oldest first. -/
  takers : List ι

namespace Lease

variable {ι T : Type}

/-- `i` takes the lease at `now`. -/
def take (lease : Lease ι T) (i : ι) (now due : T) : Lease ι T := ⟨due, now, lease.takers ++ [i]⟩

/-- The lease changes at `now`, and nobody takes it. -/
def change (lease : Lease ι T) (now due : T) : Lease ι T := ⟨due, now, lease.takers⟩

section Order

variable [LinearOrder T]

/-- Either `i` took the lease last and its token still matches, or the due time has passed the
    token for good. -/
def Guards (lease : Lease ι T) (i : ι) (token : T) : Prop :=
  (lease.takers.getLast? = some i ∧ lease.due = token) ∨
    (token ≤ lease.stamp ∧ token < lease.due)

variable {lease : Lease ι T} {i : ι} {token now due : T}

/-- A token that matches is the last taker's. -/
theorem Guards.last (h : lease.Guards i token) (hd : lease.due = token) :
    lease.takers.getLast? = some i := by
  rcases h with ⟨hi, _⟩ | ⟨_, hlt⟩
  · exact hi
  · exact absurd hd hlt.ne'

theorem guards_take (lease : Lease ι T) (i : ι) (now due : T) :
    (lease.take i now due).Guards i due :=
  Or.inl ⟨List.getLast?_concat .., rfl⟩

/-- When a lease is due, every token of it is in the past. -/
theorem Guards.past (h : lease.Guards i token) (hdue : lease.due ≤ now)
    (hstamp : lease.stamp < now) : token ≤ now := by
  rcases h with ⟨_, rfl⟩ | ⟨hle, _⟩
  · exact hdue
  · exact hle.trans hstamp.le

/-- Another taker comes only then. -/
theorem Guards.take (h : lease.Guards i token) (hdue : lease.due ≤ now)
    (hstamp : lease.stamp < now) (hlater : now < due) (j : ι) :
    (lease.take j now due).Guards i token := by
  have hpast := h.past hdue hstamp
  exact Or.inr ⟨hpast, hpast.trans_lt hlater⟩

/-- A change by someone whose token is another one. -/
theorem Guards.change (h : lease.Guards i token) (hother : lease.takers.getLast? ≠ some i)
    (hstamp : lease.stamp < now) (hd : due = lease.due ∨ now ≤ due) :
    (lease.change now due).Guards i token := by
  rcases h with ⟨hi, _⟩ | ⟨hle, hlt⟩
  · exact absurd hi hother
  · refine Or.inr ⟨hle.trans hstamp.le, ?_⟩
    rcases hd with rfl | hd
    · exact hlt
    · exact (hle.trans_lt hstamp).trans_le hd

end Order

end Lease

end SisaMessaging.Lib
