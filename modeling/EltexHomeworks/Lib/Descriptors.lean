import Mathlib.Data.List.Basic

namespace EltexHomeworks.Lib

/-!
# Descriptor tables — lowest-free allocation

A process refers to what it has open by small numbers.  A new descriptor gets the lowest number
that is free, and a number that was closed may be given out again.

* `Descriptors.add` — the new descriptor, at `lowestFree`;
* `Descriptors.close` — the number is free again;
* `get?_add_of_eq_some` / `get?_close_of_ne` — what is open stays open under its number, whatever is
  opened and whatever else is closed.
-/

/-- What is open under each number. -/
structure Descriptors (α : Type*) where
  slots : List (Option α)

namespace Descriptors

variable {α : Type*} (t : Descriptors α)

/-- What is open as `fd`, if anything is. -/
def get? (fd : Nat) : Option α := t.slots.getD fd none

/-- The number a new descriptor gets. -/
def lowestFree : Nat := t.slots.findIdx Option.isNone

/-- Open `x`, as `lowestFree`. -/
def add (x : α) : Descriptors α := ⟨(t.slots ++ [none]).set t.lowestFree (some x)⟩

/-- Close `fd`. -/
def close (fd : Nat) : Descriptors α := ⟨t.slots.set fd none⟩

theorem lowestFree_le : t.lowestFree ≤ t.slots.length := List.findIdx_le_length

/-- The number of a new descriptor was free. -/
theorem get?_lowestFree : t.get? t.lowestFree = none := by
  rw [get?, List.getD_eq_getElem?_getD]
  by_cases h : t.lowestFree < t.slots.length
  · rw [List.getElem?_eq_getElem h]
    have hnone : (t.slots[t.lowestFree]).isNone = true := List.findIdx_getElem
    simpa using hnone
  · rw [List.getElem?_eq_none (by omega)]
    rfl

/-- The new descriptor. -/
@[simp] theorem get?_add_lowestFree (x : α) : (t.add x).get? t.lowestFree = some x := by
  have hle := t.lowestFree_le
  have hlt : t.lowestFree < (t.slots ++ [none]).length := by
    rw [List.length_append, List.length_singleton]
    omega
  rw [get?, add, List.getD_eq_getElem?_getD, List.getElem?_set_self hlt]
  rfl

/-- A new descriptor that is closed again leaves the lowest number it had free. -/
theorem lowestFree_close_add (x : α) :
    ((t.add x).close t.lowestFree).lowestFree = t.lowestFree := by
  -- the table is as before, but for the slot added at its end
  have hslots : ((t.slots ++ [none]).set t.lowestFree (some x)).set t.lowestFree none =
      t.slots ++ [none] := by
    rw [List.set_set]
    apply List.ext_getElem?
    intro i
    by_cases hi : i = t.lowestFree
    · subst hi
      have hle := t.lowestFree_le
      rw [List.getElem?_set_self (by rw [List.length_append, List.length_singleton]; omega)]
      have hfree := t.get?_lowestFree
      rw [get?, List.getD_eq_getElem?_getD] at hfree
      by_cases hlt : t.lowestFree < t.slots.length
      · rw [List.getElem?_append_left hlt]
        rw [List.getElem?_eq_getElem hlt] at hfree ⊢
        exact congrArg some hfree.symm
      · have heq : t.lowestFree = t.slots.length := by omega
        rw [heq, List.getElem?_concat_length]
    · rw [List.getElem?_set_ne (Ne.symm hi)]
  show (((t.slots ++ [none]).set t.lowestFree (some x)).set t.lowestFree none).findIdx
    Option.isNone = t.slots.findIdx Option.isNone
  rw [hslots, List.findIdx_append]
  split
  · rfl
  · have hle : t.slots.findIdx Option.isNone ≤ t.slots.length := t.lowestFree_le
    have hnone : [(none : Option α)].findIdx Option.isNone = 0 := rfl
    omega

variable {t}

/-- Other numbers are not touched by a new descriptor. -/
theorem get?_add_of_ne (x : α) {fd : Nat} (h : fd ≠ t.lowestFree) :
    (t.add x).get? fd = t.get? fd := by
  rw [get?, get?, add, List.getD_eq_getElem?_getD, List.getD_eq_getElem?_getD,
    List.getElem?_set_ne (Ne.symm h)]
  by_cases hlt : fd < t.slots.length
  · rw [List.getElem?_append_left hlt]
  · -- behind the table there is only the slot that was added, which is empty
    rw [List.getElem?_append_right (by omega), List.getElem?_eq_none (l := t.slots) (by omega)]
    cases fd - t.slots.length with
    | zero => rfl
    | succ k => rfl

/-- What is open stays open. -/
theorem get?_add_of_eq_some (x : α) {fd : Nat} {y : α} (h : t.get? fd = some y) :
    (t.add x).get? fd = some y := by
  have hne : fd ≠ t.lowestFree := by
    intro he
    rw [he, get?_lowestFree] at h
    cases h
  rw [get?_add_of_ne x hne, h]

/-- Other numbers are not touched by `close`. -/
theorem get?_close_of_ne {fd fd' : Nat} (h : fd ≠ fd') : (t.close fd').get? fd = t.get? fd := by
  rw [get?, get?, close, List.getD_eq_getElem?_getD, List.getD_eq_getElem?_getD,
    List.getElem?_set_ne (Ne.symm h)]

/-- A number that was closed is free. -/
@[simp] theorem get?_close_self (fd : Nat) : (t.close fd).get? fd = none := by
  rw [get?, close, List.getD_eq_getElem?_getD, List.getElem?_set_self']
  cases t.slots[fd]? with
  | none => rfl
  | some x => rfl

/-- No free number is lower than the lowest. -/
theorem lowestFree_le_of_get? {fd : Nat} (h : t.get? fd = none) : t.lowestFree ≤ fd := by
  by_contra hlt
  have hidx : fd < t.slots.findIdx Option.isNone := Nat.not_le.mp hlt
  have hlen := Nat.lt_of_lt_of_le hidx t.lowestFree_le
  have hsome := List.not_of_lt_findIdx hidx
  rw [get?, List.getD_eq_getElem?_getD, List.getElem?_eq_getElem hlen, Option.getD_some] at h
  rw [h] at hsome
  cases hsome

/-- After a `close` the lowest free number is not higher than the number closed, and not higher than
    it was. -/
theorem lowestFree_close_le (fd : Nat) :
    (t.close fd).lowestFree ≤ fd ∧ (t.close fd).lowestFree ≤ t.lowestFree := by
  have hfd := lowestFree_le_of_get? (t.get?_close_self fd)
  refine ⟨hfd, ?_⟩
  by_cases heq : t.lowestFree = fd
  · rw [heq]
    exact hfd
  · exact lowestFree_le_of_get? ((get?_close_of_ne heq).trans t.get?_lowestFree)

/-- Closing the number of one thing leaves every other thing open under its number. -/
theorem get?_close_of_eq_some {fd fd' : Nat} {x y : α} (hx : t.get? fd' = some x)
    (hy : t.get? fd = some y) (h : y ≠ x) : (t.close fd').get? fd = some y := by
  have hne : fd ≠ fd' := by
    rintro rfl
    exact h (Option.some.inj (hy.symm.trans hx))
  rw [get?_close_of_ne hne, hy]

end Descriptors

end EltexHomeworks.Lib
