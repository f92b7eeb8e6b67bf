namespace EltexHomeworks.Lib

/-!
# Row-major offsets

The cell in row `y` and column `x` of a table with `w` columns has the offset `y * w + x` when the
table is stored row after row.
-/

/-- The offset of a cell. -/
def rowMajor (w y x : Nat) : Nat := y * w + x

/-- A cell of a table with `h` rows is stored in the first `h * w` places. -/
theorem rowMajor_lt {h w y x : Nat} (hy : y < h) (hx : x < w) : rowMajor w y x < h * w := by
  have hrow : (y + 1) * w ≤ h * w := Nat.mul_le_mul_right w hy
  rw [Nat.add_mul, Nat.one_mul] at hrow
  unfold rowMajor
  omega

/-- **Different cells have different offsets.** -/
theorem rowMajor_inj {w y y' x x' : Nat} (hx : x < w) (hx' : x' < w) :
    rowMajor w y x = rowMajor w y' x' ↔ y = y' ∧ x = x' := by
  constructor
  · intro h
    have hrow : (rowMajor w y x) / w = (rowMajor w y' x') / w := by rw [h]
    rw [rowMajor, rowMajor, Nat.add_comm, Nat.add_mul_div_right _ _ (by omega),
      Nat.add_comm (y' * w), Nat.add_mul_div_right _ _ (by omega), Nat.div_eq_of_lt hx,
      Nat.div_eq_of_lt hx'] at hrow
    have hy : y = y' := by omega
    subst hy
    rw [rowMajor, rowMajor] at h
    exact ⟨rfl, by omega⟩
  · rintro ⟨rfl, rfl⟩
    rfl

/-- Every place among the first `h * w` belongs to a cell. -/
theorem exists_rowMajor {h w i : Nat} (hi : i < h * w) :
    ∃ y x, y < h ∧ x < w ∧ rowMajor w y x = i := by
  have hw : 0 < w := Nat.pos_of_ne_zero (by rintro rfl; rw [Nat.mul_zero] at hi; omega)
  refine ⟨i / w, i % w, Nat.div_lt_of_lt_mul (by rw [Nat.mul_comm]; exact hi), Nat.mod_lt i hw, ?_⟩
  rw [rowMajor, Nat.mul_comm, Nat.div_add_mod]

end EltexHomeworks.Lib
