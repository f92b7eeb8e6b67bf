import Mathlib.Data.Int.Basic

namespace EltexHomeworks.Lib

/-!
# C's `int`

An `int` has 32 bits here, and its arithmetic is defined only where the exact result is an `int`
again: `CInt.checked` is `none` elsewhere.

* `CInt.checked_eq_some` — an operation that is defined has the exact result;
* `CInt.isSome_checked_iff` — it is defined exactly when that is in range.
-/

/-- `x` is an `int`. -/
def InRange (x : Int) : Prop := -2147483648 ≤ x ∧ x ≤ 2147483647

instance (x : Int) : Decidable (InRange x) := inferInstanceAs (Decidable (_ ∧ _))

/-- A number that is an `int`. -/
abbrev CInt := { x : Int // InRange x }

namespace CInt

/-- `INT_MAX`. -/
def max : CInt := ⟨2147483647, by decide⟩

/-- `INT_MIN`. -/
def min : CInt := ⟨-2147483648, by decide⟩

def zero : CInt := ⟨0, by decide⟩

/-- The result of an operation whose exact result is `x`; `none` on overflow. -/
def checked (x : Int) : Option CInt := if h : InRange x then some ⟨x, h⟩ else none

/-- `a + b`. -/
def add (a b : CInt) : Option CInt := checked (a.val + b.val)

/-- `a - b`. -/
def sub (a b : CInt) : Option CInt := checked (a.val - b.val)

/-- `a * b`. -/
def mul (a b : CInt) : Option CInt := checked (a.val * b.val)

/-- An operation that is defined has the exact result. -/
theorem checked_eq_some {x : Int} {c : CInt} : checked x = some c ↔ c.val = x := by
  unfold checked
  constructor
  · intro h
    split at h
    · cases h; rfl
    · cases h
  · rintro rfl
    exact dif_pos c.property

theorem isSome_checked_iff {x : Int} : (checked x).isSome ↔ InRange x := by
  unfold checked
  split <;> simp_all

theorem checked_eq_none {x : Int} : checked x = none ↔ ¬ InRange x := by
  rw [← isSome_checked_iff, Option.not_isSome_iff_eq_none]

theorem sub_eq {a b : CInt} (h : InRange (a.val - b.val)) :
    a.sub b = some ⟨a.val - b.val, h⟩ := checked_eq_some.mpr rfl

theorem mul_eq {a b : CInt} (h : InRange (a.val * b.val)) :
    a.mul b = some ⟨a.val * b.val, h⟩ := checked_eq_some.mpr rfl

end CInt

end EltexHomeworks.Lib
