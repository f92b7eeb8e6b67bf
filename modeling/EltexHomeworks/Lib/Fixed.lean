import EltexHomeworks.Lib.Decimal
import EltexHomeworks.Lib.Binary64

namespace EltexHomeworks.Lib

/-!
# Numbers with one decimal — `%.1f`

`printf` rounds the exact value of a `double` to the nearest tenth, a half to the even one, and
writes a sign also in front of a negative zero; `fixed1` is that text.

* `fixed1_div` — of a quotient of two integers that is a tenth nearest to the quotient itself, though
  it has been rounded to a `double` before.
-/

/-- A number of tenths. -/
def tenths (n : Nat) : Str := natDecimal (n / 10) ++ [46] ++ natDecimal (n % 10)

/-- The character in front of a negative number. -/
def minus : Float.Model.UnpackedFloat.Sign → Str
  | .positive => []
  | .negative => [45]

/-- `printf("%.1f", x)`. -/
def fixed1 (x : Float.Model) : Str :=
  match x.unpack with
  | .notANumber => [110, 97, 110]
  | .infinity sign => minus sign ++ [105, 110, 102]
  | .zero sign => minus sign ++ tenths 0
  | .finite sign mantissa exponent _ =>
    minus sign ++
      tenths (roundHalfEven (10 * mantissa * 2 ^ exponent.toNat) (2 ^ (-exponent).toNat))

theorem minus_div (a b : Int) :
    minus (signOf a / signOf b) = if a < 0 ↔ b < 0 then [] else [45] := by
  unfold signOf
  by_cases ha : a < 0 <;> by_cases hb : b < 0 <;> simp only [ha, hb] <;> rfl

/-- With a mantissa of 53 bits the multiples of `1 / 2 ^ p` are finer than a tenth of `1 / d`. -/
theorem ten_mul_lt_two_pow {m p a d : Nat} (hm : m.log2 = 52) (ha : a < 2 ^ 48) (hd : 0 < d)
    (h : Nearest m (a * 2 ^ p) d) : 10 * d < 2 ^ p := by
  obtain ⟨hlow, -⟩ := (log2_eq_52_iff (pos_of_log2 hm)).mp hm
  have hmul := Nat.mul_le_mul_right d hlow
  have hapow : a * 2 ^ p ≤ 2 ^ 48 * 2 ^ p := Nat.mul_le_mul_right _ (Nat.le_of_lt ha)
  have hnear := h.1
  omega

/-- **A quotient with one decimal** is that of a nearest number of tenths, with the sign of the
    quotient; a negative zero has one, too. -/
theorem fixed1_div {a b : Int} (hb : b ≠ 0) (halt : a.natAbs < 2 ^ 48) (hblt : b.natAbs < 2 ^ 53) :
    ∃ t, fixed1 (.ofInt a / .ofInt b) = (if a < 0 ↔ b < 0 then [] else [45]) ++ tenths t ∧
      Nearest t (10 * a.natAbs) b.natAbs := by
  rw [← minus_div]
  by_cases ha : a = 0
  · subst ha
    refine ⟨0, ?_, ?_⟩
    · unfold fixed1
      rw [unpack_zero_div hb hblt]
    · exact ⟨by omega, by omega⟩
  · obtain ⟨m, p, hm, hunpack, hnearest⟩ :=
      unpack_div ha hb (Nat.lt_trans halt (by decide)) hblt
    have hfine := ten_mul_lt_two_pow hm halt (Int.natAbs_pos.mpr hb) hnearest
    refine ⟨roundHalfEven (10 * m) (2 ^ p), ?_, ?_⟩
    · have hpos : (-(p : Int)).toNat = 0 := by omega
      have hneg : (- -(p : Int)).toNat = p := by omega
      unfold fixed1
      rw [hunpack]
      dsimp only
      rw [hpos, hneg, Nat.pow_zero, Nat.mul_one]
    · exact hnearest.trans (nearest_roundHalfEven (Nat.two_pow_pos p)) hfine

end EltexHomeworks.Lib
