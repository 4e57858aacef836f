/-
  Fixed-width integers whose operations panic when a result doesn't fit.

  Code is written once with exact integers, and once with `fit` around each operation that can
  overflow: a value is `none` where the code panics. `fit_bind` takes the two versions together,
  one operation at a time, and `question_eq` one early return at a time. Nothing here names a
  particular program.
-/
import Mathlib.Tactic.Common

namespace SisaMessaging.Lib

/-- The least and the greatest value of an integer type. -/
structure IntType where
  min : Int
  max : Int

namespace IntType

def u8 : IntType := ⟨0, 255⟩

def u32 : IntType := ⟨0, 4294967295⟩

def i64 : IntType := ⟨-9223372036854775808, 9223372036854775807⟩

def i128 : IntType :=
  ⟨-170141183460469231731687303715884105728, 170141183460469231731687303715884105727⟩

def Holds (type : IntType) (x : Int) : Prop := type.min ≤ x ∧ x ≤ type.max

instance (type : IntType) (x : Int) : Decidable (type.Holds x) :=
  inferInstanceAs (Decidable (_ ∧ _))

/-- The result of an operation, or a cast, whose exact value is `x`. -/
def fit (type : IntType) (x : Int) : Option Int := if type.Holds x then some x else none

theorem fit_eq_some {type : IntType} {x : Int} (h : type.Holds x) : type.fit x = some x := if_pos h

theorem fit_bind {type : IntType} {x : Int} {α : Type} (h : type.Holds x) (f : Int → Option α) :
    (type.fit x >>= f) = f x := by
  rw [fit_eq_some h]
  rfl

theorem holds_u8 {x : Int} : u8.Holds x ↔ 0 ≤ x ∧ x ≤ 255 := Iff.rfl

theorem holds_u32 {x : Int} : u32.Holds x ↔ 0 ≤ x ∧ x ≤ 4294967295 := Iff.rfl

theorem holds_i64 {x : Int} :
    i64.Holds x ↔ -9223372036854775808 ≤ x ∧ x ≤ 9223372036854775807 := Iff.rfl

theorem holds_i128 {x : Int} : i128.Holds x ↔
    -170141183460469231731687303715884105728 ≤ x ∧
      x ≤ 170141183460469231731687303715884105727 := Iff.rfl

end IntType

/-- `x?` where the code can panic: `none` is a panic, `some none` an early return of `None`. -/
def question {α β : Type} (x : Option (Option α)) (f : α → Option (Option β)) :
    Option (Option β) :=
  x >>= fun value =>
    match value with
    | none => some none
    | some a => f a

theorem question_eq {α β γ : Type} {x : Option α} {g : α → β} {f : β → Option (Option γ)}
    {k : α → Option γ} (h : ∀ a, x = some a → f (g a) = some (k a)) :
    question (some (x.map g)) f = some (x.bind k) := by
  cases x with
  | none => rfl
  | some a => exact h a rfl

theorem question_map_eq {α β γ δ : Type} {x : Option α} {g : α → β} {f : β → Option (Option δ)}
    {k : α → Option γ} {out : γ → δ} (h : ∀ a, x = some a → f (g a) = some ((k a).map out)) :
    question (some (x.map g)) f = some ((x.bind k).map out) := by
  rw [Option.map_bind]
  exact question_eq h

end SisaMessaging.Lib
