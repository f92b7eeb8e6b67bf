import Mathlib.Data.Nat.Log
import Mathlib.Tactic.Ring
import Mathlib.Tactic.Linarith

namespace EltexHomeworks.Lib

/-!
# Rounding a fraction to the nearest integer

`roundHalfEven n d` is the integer nearest to `n / d`, and the even one of two equally near ones.
A mantissa with a round bit and a sticky bit keeps just what is needed for it: `Represents` says of
which fraction they are.

* `nearest_roundHalfEven` — the rounding is `Nearest`: half away from the fraction at most;
* `Nearest.trans` — rounding twice does no harm when the first rounding is fine enough;
* `Represents.shiftRight` — a shift of the bits divides the fraction by a power of two;
* `Represents.roundedMantissa` — the rounding of the bits is the rounding of the fraction.
-/

open Float.Model.UnpackedFloat

/-- `n / d` rounded to the nearest integer, halves to the even one. -/
def roundHalfEven (n d : Nat) : Nat :=
  if 2 * (n % d) < d ∨ 2 * (n % d) = d ∧ n / d % 2 = 0 then n / d else n / d + 1

/-- No integer is nearer to `n / d` than `t`: it is half away at most. -/
def Nearest (t n d : Nat) : Prop := 2 * (t * d) ≤ 2 * n + d ∧ 2 * n ≤ 2 * (t * d) + d

variable {n d : Nat}

/-- **The nearest**: the rounding is half away from the fraction at most, below it or above. -/
theorem nearest_roundHalfEven (hd : 0 < d) : Nearest (roundHalfEven n d) n d := by
  have hn := Nat.div_add_mod' n d
  have hlt := Nat.mod_lt n hd
  unfold Nearest roundHalfEven
  split
  · omega
  · rw [Nat.add_mul, Nat.one_mul]
    omega

/-- Between two integers the rounding stays between them. -/
theorem roundHalfEven_mem {a b : Nat} (hd : 0 < d) (ha : a * d ≤ n) (hb : n ≤ b * d) :
    a ≤ roundHalfEven n d ∧ roundHalfEven n d ≤ b := by
  have hlow : a ≤ n / d := (Nat.le_div_iff_mul_le hd).mpr ha
  have hhigh : n / d ≤ b := Nat.div_le_of_le_mul (by rwa [Nat.mul_comm])
  unfold roundHalfEven
  split
  · exact ⟨hlow, hhigh⟩
  · rename_i hup
    refine ⟨Nat.le_succ_of_le hlow, Nat.lt_of_le_of_ne hhigh fun heq => hup (.inl ?_)⟩
    -- the upper end itself is rounded down
    have hn := Nat.div_add_mod' n d
    rw [heq] at hn
    omega

/-- A common factor makes no difference. -/
theorem nearest_mul_right {t c : Nat} (hc : 0 < c) :
    Nearest t (n * c) (d * c) ↔ Nearest t n d := by
  have hlow : 2 * (t * (d * c)) = 2 * (t * d) * c := by ring
  have hhigh : 2 * (n * c) = 2 * n * c := by ring
  unfold Nearest
  rw [hlow, hhigh, ← Nat.add_mul, ← Nat.add_mul, Nat.mul_le_mul_right_iff hc,
    Nat.mul_le_mul_right_iff hc]

/-- An even one is also nearest, halved, when it counts twos. -/
theorem Nearest.half {t : Nat} (h : Nearest (t * 2) n d) : Nearest t n (d * 2) := by
  obtain ⟨hlow, hhigh⟩ := h
  have hmul : t * 2 * d = t * (d * 2) := by ring
  rw [hmul] at hlow hhigh
  exact ⟨by omega, by omega⟩

/-- **Rounding twice**: `m / p` is nearest to the fraction among the multiples of `1 / p`, and `t` to
    `c` times that.  As long as `p` is so large that the first rounding is finer than what the
    second one can tell apart, `t` is nearest to `c` times the fraction itself. -/
theorem Nearest.trans {t m p c : Nat} (hm : Nearest m (n * p) d) (ht : Nearest t (c * m) p)
    (hfine : c * d < p) : Nearest t (c * n) d := by
  have hm₁ := Nat.mul_le_mul_left c hm.1
  have hm₂ := Nat.mul_le_mul_left c hm.2
  have ht₁ := Nat.mul_le_mul_right d ht.1
  have ht₂ := Nat.mul_le_mul_right d ht.2
  -- a distance of more than a half is one of a whole `1 / p` more
  constructor <;> by_contra hfar
  · have hfar := Nat.mul_le_mul_right p (Nat.not_le.mp hfar)
    linarith
  · have hfar := Nat.mul_le_mul_right p (Nat.not_le.mp hfar)
    linarith

/-! ### The bits behind a mantissa -/

/-- The bits of `em` are those of the fraction `n / d`. -/
structure Represents (em : ExtendedMantissa) (n d : Nat) : Prop where
  mantissa : em.mantissa = n / d
  roundBit : em.roundBit = true ↔ d ≤ 2 * (n % d)
  stickyBit : em.stickyBit = true ↔ n % d ≠ 0 ∧ 2 * (n % d) ≠ d

/-- The bits that are put behind a quotient. -/
theorem represents_ofFraction (hd : 0 < d) (n : Nat) :
    Represents (.ofMantissaAndAccuracy (n / d) (accuracyOfFraction (n % d) d)) n d := by
  unfold accuracyOfFraction
  by_cases hzero : n % d = 0
  · rw [if_pos hzero]
    refine ⟨rfl, iff_of_false Bool.false_ne_true ?_, iff_of_false Bool.false_ne_true ?_⟩ <;> omega
  · rw [if_neg hzero]
    rcases Nat.lt_trichotomy (2 * (n % d)) d with hlt | heq | hgt
    · rw [compare_lt_iff_lt.mpr hlt]
      refine ⟨rfl, iff_of_false Bool.false_ne_true ?_, iff_of_true rfl ?_⟩ <;> omega
    · rw [compare_eq_iff_eq.mpr heq]
      refine ⟨rfl, iff_of_true rfl ?_, iff_of_false Bool.false_ne_true ?_⟩ <;> omega
    · rw [compare_gt_iff_gt.mpr hgt]
      refine ⟨rfl, iff_of_true rfl ?_, iff_of_true rfl ?_⟩ <;> omega

/-- A shift to the right halves the fraction. -/
theorem Represents.shiftRightOne {em : ExtendedMantissa} (h : Represents em n d) (hd : 0 < d) :
    Represents em.shiftRightOne n (d * 2) := by
  have hmod : n % (d * 2) = n % d + d * (n / d % 2) := Nat.mod_mul
  have hbit := Nat.mod_two_eq_zero_or_one (n / d)
  have hlt := Nat.mod_lt n hd
  refine ⟨?_, ?_, ?_⟩
  · show em.mantissa / 2 = _
    rw [h.mantissa, Nat.div_div_eq_div_mul]
  · show (em.mantissa % 2 != 0) = true ↔ _
    rw [h.mantissa, bne_iff_ne, hmod]
    rcases hbit with hbit | hbit <;> rw [hbit] <;> omega
  · show (em.roundBit || em.stickyBit) = true ↔ _
    rw [Bool.or_eq_true, h.roundBit, h.stickyBit, hmod]
    rcases hbit with hbit | hbit <;> rw [hbit] <;> omega

/-- **A shift** by `k` bits divides the fraction by `2 ^ k`, and none of its bits is lost. -/
theorem Represents.shiftRight {em : ExtendedMantissa} (h : Represents em n d) (hd : 0 < d)
    (k : Nat) : Represents (em >>> k) n (d * 2 ^ k) := by
  induction k with
  | zero =>
    rw [Nat.pow_zero, Nat.mul_one]
    exact h
  | succ k ih =>
    rw [Nat.pow_succ, ← Nat.mul_assoc]
    exact ih.shiftRightOne (Nat.mul_pos hd (Nat.two_pow_pos k))

/-- **The rounding of the bits** is that of the fraction. -/
theorem Represents.roundedMantissa {em : ExtendedMantissa} (h : Represents em n d) :
    em.roundedMantissa = roundHalfEven n d := by
  obtain ⟨hm, hr, hs⟩ := h
  obtain ⟨m, r, s⟩ := em
  obtain rfl : m = n / d := hm
  unfold roundHalfEven
  cases r with
  | false =>
    have hlt : 2 * (n % d) < d := Nat.not_le.mp fun hle => Bool.false_ne_true (hr.mpr hle)
    rw [if_pos (.inl hlt)]
    cases s <;> rfl
  | true =>
    have hle : d ≤ 2 * (n % d) := hr.mp rfl
    cases s with
    | true =>
      have hne := (hs.mp rfl).2
      rw [if_neg (by omega)]
      rfl
    | false =>
      -- a half, which goes to the even one
      have hhalf : 2 * (n % d) = d := by
        by_contra hne
        exact Bool.false_ne_true (hs.mpr ⟨by omega, hne⟩)
      show n / d + n / d % 2 = _
      split <;> omega

end EltexHomeworks.Lib
