import EltexHomeworks.Lib.Rounding

namespace EltexHomeworks.Lib

/-!
# Doubles — integers and their quotients

`Float.Model` is a `double` bit by bit, and computes on the unpacked form, a sign, a mantissa and an
exponent.  Away from zero and from the ends of the range the mantissa has 53 bits.

* `unpack_pack` — such a `double` is the same when it is packed and unpacked;
* `roundWithAccuracy_fraction` — a fraction is rounded to a mantissa that is nearest to it;
* `unpack_ofInt` — an integer of at most 53 bits is a `double`;
* `unpack_div` — the quotient of two integers is rounded once, to the nearest.
-/

open Float.Model Float.Model.UnpackedFloat

variable {m n d : Nat} {e : Int} {sign : Sign}

theorem pos_of_log2 (hm : m.log2 = 52) : 0 < m := by
  rcases Nat.eq_zero_or_pos m with rfl | hpos
  · cases hm
  · exact hpos

/-- The proof that a mantissa is positive is not part of the number. -/
theorem finite_congr {sign' : Sign} {m' : Nat} {e' : Int} {hm : 0 < m} {hm' : 0 < m'}
    (hs : sign = sign') (h : m = m') (he : e = e') :
    UnpackedFloat.finite sign m e hm = .finite sign' m' e' hm' := by
  subst hs h he
  rfl

theorem log2_eq_52_iff (hm : 0 < m) : m.log2 = 52 ↔ 2 ^ 52 ≤ m ∧ m < 2 ^ 53 :=
  Nat.log2_eq_iff (Nat.ne_of_gt hm)

/-! ### Packing -/

theorem ofBitVec_toBitVec (sign : Sign) : Sign.ofBitVec sign.toBitVec = sign := by
  cases sign <;> rfl

/-- The sign is read back, as exponent and mantissa are. -/
theorem unpackSign_packComponents {spec : Format} {exponent : BitVec spec.exponentBits}
    {mantissa : BitVec spec.mantissaBitsWithoutImplicit} :
    unpackSign (packComponents spec sign exponent mantissa) = sign.toBitVec := by
  ext i hi
  obtain rfl : i = 0 := Nat.lt_one_iff.mp hi
  show (BitVec.cast _ (BitVec.extractLsb _ _ (sign.toBitVec ++ exponent ++ mantissa)))[0] = _
  simp [BitVec.getLsbD_append, BitVec.getElem_append]

/-- The bit in front, which is not stored, makes up the mantissa again. -/
theorem toNat_implicit (hm : m.log2 = 52) : (1#1 ++ BitVec.ofNat 52 m).toNat = m := by
  obtain ⟨hlow, hhigh⟩ := (log2_eq_52_iff (pos_of_log2 hm)).mp hm
  rw [BitVec.toNat_append, ← Nat.shiftLeft_add_eq_or_of_lt (BitVec.isLt _), BitVec.toNat_ofNat,
    BitVec.toNat_ofNat, Nat.shiftLeft_eq]
  omega

/-- **Packing loses nothing** of a sign, a mantissa of 53 bits and an exponent in the range. -/
theorem unpack_pack (hm : m.log2 = 52) (hlow : -1074 ≤ e) (hhigh : e ≤ 971) (sign : Sign) :
    (Float.Model.pack (.finite sign m e (pos_of_log2 hm))).unpack =
      .finite sign m e (pos_of_log2 hm) := by
  have hbias : (Format.binary64.exponentBias : Int) = 1023 := rfl
  obtain ⟨b, hb⟩ : ∃ b : Nat, (b : Int) = e + 1075 := ⟨(e + 1075).toNat, by omega⟩
  have hbiased : (e + Format.binary64.exponentBias + (52 : Nat)).toNat = b := by
    rw [hbias]
    omega
  have hpack : UnpackedFloat.pack .binary64 (.finite sign m e (pos_of_log2 hm)) =
      packComponents .binary64 sign (BitVec.ofNat 11 b) (BitVec.ofNat 52 m) := by
    unfold UnpackedFloat.pack
    simp only [hbiased]
    rw [if_neg (by omega), if_pos (by rw [hm]; rfl)]
  -- the exponent is neither that of the infinities nor that of the subnormal numbers
  have hexp : (BitVec.ofNat 11 b).toNat = b := by
    rw [BitVec.toNat_ofNat]
    exact Nat.mod_eq_of_lt (by omega)
  have hne : ∀ v : BitVec 11, v.toNat ≠ b → BitVec.ofNat 11 b ≠ v := by
    rintro v hv rfl
    exact hv hexp
  have hnotMax : BitVec.ofNat 11 b ≠ -1#_ := by
    refine hne _ ?_
    show 2047 ≠ b
    omega
  have hnotMin : BitVec.ofNat 11 b ≠ 0#_ := by
    refine hne _ ?_
    show 0 ≠ b
    omega
  show UnpackedFloat.unpack .binary64 (UnpackedFloat.pack .binary64 _) = _
  rw [hpack]
  unfold UnpackedFloat.unpack
  dsimp only
  rw [if_neg (by rw [unpackExponent_packComponents]; exact hnotMax),
    if_neg (by rw [unpackExponent_packComponents]; exact hnotMin)]
  refine finite_congr ?_ ?_ ?_
  · rw [unpackSign_packComponents, ofBitVec_toBitVec]
  · rw [unpackMantissa_packComponents, toNat_implicit hm]
  · rw [unpackExponent_packComponents, hexp, hbias]
    omega

theorem unpack_pack_zero (sign : Sign) :
    (Float.Model.pack (.zero sign)).unpack = .zero sign := by
  cases sign <;> rfl

/-! ### Rounding -/

/-- A mantissa of 53 bits or more is shifted by those it has too many of. -/
theorem shiftToTargetExponent_eq (hm : 52 ≤ m.log2) (he : -1074 ≤ e) (accuracy : Accuracy) :
    shiftToTargetExponent .binary64 m e accuracy =
      (ExtendedMantissa.ofMantissaAndAccuracy m accuracy >>> (m.log2 - 52),
        e + (m.log2 - 52 : Nat)) := by
  have htarget : Format.binary64.targetExponent (totalExponent m e) = e + (m.log2 - 52 : Nat) := by
    show max ((m.log2 : Int) + 1 + e - 53) (-1074) = _
    omega
  rw [shiftToTargetExponent, htarget, shiftToExponent]
  have hshift : (e + (m.log2 - 52 : Nat) - e).toNat = m.log2 - 52 := by omega
  rw [hshift]

/-- The two shifts of the rounding: one that makes the mantissa fit, and one for its carry. -/
theorem roundWithAccuracy_of_shifts {accuracy : Accuracy} {em : ExtendedMantissa} {e₁ e₂ : Int}
    (carried : ExtendedMantissa)
    (hfirst : shiftToTargetExponent .binary64 m e accuracy = (em, e₁))
    (hsecond : shiftToTargetExponent .binary64 em.roundedMantissa e₁ .exact = (carried, e₂))
    (hpos : 0 < carried.mantissa) :
    roundWithAccuracy .binary64 sign m e accuracy = .finite sign carried.mantissa e₂ hpos := by
  unfold roundWithAccuracy
  rw [hfirst]
  dsimp only
  rw [hsecond]
  exact dif_neg (Nat.ne_of_gt hpos)

/-- A mantissa of 53 bits is not shifted. -/
theorem shiftToTargetExponent_exact (hm : m.log2 = 52) (he : -1074 ≤ e) :
    shiftToTargetExponent .binary64 m e .exact = (⟨m, false, false⟩, e) := by
  rw [shiftToTargetExponent_eq (Nat.le_of_eq hm.symm) he, hm]
  exact Prod.ext rfl (Int.add_zero e)

/-- And so it is left as it is. -/
theorem roundWithAccuracy_exact (hm : m.log2 = 52) (he : -1074 ≤ e) :
    roundWithAccuracy .binary64 sign m e .exact = .finite sign m e (pos_of_log2 hm) :=
  roundWithAccuracy_of_shifts ⟨m, false, false⟩ (shiftToTargetExponent_exact hm he)
    (shiftToTargetExponent_exact hm he) (pos_of_log2 hm)

/-- An integral part of `53 + k` bits leaves 53 of them when it is divided by `2 ^ k`, and the
    rounding stays between the ends of these. -/
theorem roundHalfEven_bits {k : Nat} (hd : 0 < d) (hk : (n / d).log2 = 52 + k) :
    2 ^ 52 ≤ roundHalfEven n (d * 2 ^ k) ∧ roundHalfEven n (d * 2 ^ k) ≤ 2 ^ 53 := by
  have hne : n / d ≠ 0 := by
    intro h0
    rw [h0] at hk
    exact absurd hk (by rw [Nat.log2_zero]; omega)
  obtain ⟨hlow, hhigh⟩ := (Nat.log2_eq_iff hne).mp hk
  refine roundHalfEven_mem (Nat.mul_pos hd (Nat.two_pow_pos k)) ?_ ?_
  · rw [← Nat.mul_assoc, Nat.mul_right_comm, ← Nat.pow_add]
    exact (Nat.le_div_iff_mul_le hd).mp hlow
  · rw [← Nat.mul_assoc, Nat.mul_right_comm, ← Nat.pow_add]
    refine Nat.le_of_lt ((Nat.div_lt_iff_lt_mul hd).mp ?_)
    rwa [Nat.add_right_comm] at hhigh

/-- **A fraction** whose integral part has 53 bits or more is rounded to a mantissa that is nearest
    to it, in units of `2 ^ k`. -/
theorem roundWithAccuracy_fraction (sign : Sign) (hd : 0 < d) (hlog : 52 ≤ (n / d).log2)
    (he : -1074 ≤ e) :
    ∃ (k m : Nat) (hm : m.log2 = 52),
      roundWithAccuracy .binary64 sign (n / d) e (accuracyOfFraction (n % d) d) =
        .finite sign m (e + k) (pos_of_log2 hm) ∧
      k ≤ (n / d).log2 - 51 ∧ Nearest m n (d * 2 ^ k) := by
  obtain ⟨k, hk⟩ := Nat.exists_eq_add_of_le hlog
  have hpos : 0 < d * 2 ^ k := Nat.mul_pos hd (Nat.two_pow_pos k)
  have hfirst : shiftToTargetExponent .binary64 (n / d) e (accuracyOfFraction (n % d) d) =
      (ExtendedMantissa.ofMantissaAndAccuracy (n / d) (accuracyOfFraction (n % d) d) >>> k,
        e + k) := by
    rw [shiftToTargetExponent_eq hlog he, hk, Nat.add_sub_cancel_left]
  have hrounded := ((represents_ofFraction hd n).shiftRight hd k).roundedMantissa
  have hnearest := nearest_roundHalfEven (n := n) hpos
  have hrange := roundHalfEven_bits hd hk
  rcases Nat.lt_or_eq_of_le hrange.2 with hlt | hcarry
  · have hlog' : (roundHalfEven n (d * 2 ^ k)).log2 = 52 :=
      (log2_eq_52_iff (Nat.lt_of_lt_of_le (by decide) hrange.1)).mpr ⟨hrange.1, hlt⟩
    refine ⟨k, _, hlog', ?_, by omega, hnearest⟩
    refine roundWithAccuracy_of_shifts ⟨_, false, false⟩ hfirst ?_ (pos_of_log2 hlog')
    rw [hrounded]
    exact shiftToTargetExponent_exact hlog' (by omega)
  · -- all bits were ones, and the carry makes the mantissa one bit longer
    rw [hcarry] at hnearest hrounded
    refine ⟨k + 1, 2 ^ 52, by decide, ?_, by omega, ?_⟩
    · refine roundWithAccuracy_of_shifts ⟨2 ^ 52, false, false⟩ hfirst ?_ (by decide)
      rw [hrounded, shiftToTargetExponent_eq (by decide) (by omega)]
      exact Prod.ext rfl (Int.add_assoc e k 1)
    · have hhalf := Nearest.half (t := 2 ^ 52) hnearest
      rwa [Nat.mul_assoc, ← Nat.pow_succ] at hhalf

/-! ### Integers -/

/-- The sign of an integer; zero has the positive one. -/
def signOf (a : Int) : Sign := if a < 0 then .negative else .positive

/-- How far the mantissa of an integer is shifted to the left. -/
def places (n : Nat) : Nat := 52 - n.log2

theorem places_le (n : Nat) : places n ≤ 52 := Nat.sub_le 52 n.log2

theorem log2_add_places (hn : 0 < n) (hlt : n < 2 ^ 53) : n.log2 + places n = 52 := by
  have hlog : n.log2 < 53 := (Nat.log2_lt (Nat.ne_of_gt hn)).mpr hlt
  unfold places
  omega

theorem log2_mul_places (hn : 0 < n) (hlt : n < 2 ^ 53) : (n * 2 ^ places n).log2 = 52 := by
  have hplaces := log2_add_places hn hlt
  obtain ⟨hlow, hhigh⟩ := (Nat.log2_eq_iff (Nat.ne_of_gt hn)).mp rfl
  have hpos := Nat.mul_pos hn (Nat.two_pow_pos (places n))
  refine (log2_eq_52_iff hpos).mpr ⟨?_, ?_⟩
  · rw [← hplaces, Nat.pow_add]
    exact Nat.mul_le_mul_right _ hlow
  · have hpow : 2 ^ 53 = 2 ^ (n.log2 + 1) * 2 ^ places n := by
      rw [← Nat.pow_add, Nat.add_right_comm, hplaces]
    rw [hpow]
    exact Nat.mul_lt_mul_of_pos_right hhigh (Nat.two_pow_pos _)

/-- The rounding of an integer only fills up its mantissa. -/
theorem round_natCast (hn : 0 < n) (hlt : n < 2 ^ 53) :
    UnpackedFloat.round .binary64 sign n 0 =
      .finite sign (n * 2 ^ places n) (-(places n : Int))
        (pos_of_log2 (log2_mul_places hn hlt)) := by
  have hlog := log2_add_places hn hlt
  have htarget : Format.binary64.targetExponent (totalExponent n 0) = -(places n : Int) := by
    show max ((n.log2 : Int) + 1 + 0 - 53) (-1074) = _
    omega
  have hshift : ((0 : Int) - -(places n : Int)).toNat = places n := by omega
  have hexp : (0 : Int) - (places n : Nat) = -(places n : Int) := Int.zero_sub _
  have hplaces := places_le n
  unfold UnpackedFloat.round
  rw [htarget]
  dsimp only [decreaseExponent]
  rw [hshift, hexp, Nat.shiftLeft_eq]
  exact roundWithAccuracy_exact (log2_mul_places hn hlt) (by omega)

/-- **An integer** of at most 53 bits is a `double`. -/
theorem unpack_ofInt {a : Int} (ha : a ≠ 0) (hlt : a.natAbs < 2 ^ 53) :
    (Float.Model.ofInt a).unpack =
      .finite (signOf a) (a.natAbs * 2 ^ places a.natAbs) (-(places a.natAbs : Int))
        (pos_of_log2 (log2_mul_places (Int.natAbs_pos.mpr ha) hlt)) := by
  have hplaces := places_le a.natAbs
  have hofInt : UnpackedFloat.ofInt .binary64 a =
      UnpackedFloat.round .binary64 (signOf a) a.natAbs 0 := by
    unfold UnpackedFloat.ofInt UnpackedFloat.normalize signOf
    rcases Int.lt_or_gt_of_ne ha with hneg | hpos
    · rw [compare_lt_iff_lt.mpr hneg, if_pos hneg]
      dsimp only
      congr 1
      omega
    · rw [compare_gt_iff_gt.mpr hpos, if_neg (by omega)]
      dsimp only
      congr 1
      omega
  rw [Float.Model.ofInt, hofInt, round_natCast (Int.natAbs_pos.mpr ha) hlt]
  exact unpack_pack (log2_mul_places (Int.natAbs_pos.mpr ha) hlt) (by omega) (by omega) _

theorem unpack_ofInt_zero : (Float.Model.ofInt 0).unpack = .zero .positive :=
  unpack_pack_zero .positive

/-! ### Quotients -/

/-- The bits of a quotient of two full mantissas. -/
theorem divCore_eq {m₁ m₂ : Nat} {e₁ e₂ : Int} (h₁ : m₁.log2 = 52) (h₂ : m₂.log2 = 52)
    (he : -1021 ≤ e₁ - e₂) :
    divCore .binary64 m₁ e₁ m₂ e₂ =
      (m₁ * 2 ^ 53 / m₂, e₁ - e₂ - 53, accuracyOfFraction (m₁ * 2 ^ 53 % m₂) m₂) := by
  have htarget : Format.binary64.targetExponent (totalExponent m₁ e₁ - totalExponent m₂ e₂) =
      e₁ - e₂ - 53 := by
    show max ((m₁.log2 : Int) + 1 + e₁ - ((m₂.log2 : Int) + 1 + e₂) - 53) (-1074) = _
    omega
  have hmin : min (e₁ - e₂) (e₁ - e₂ - 53) = e₁ - e₂ - 53 := by omega
  have hshift : (e₁ - e₂ - (e₁ - e₂ - 53)).toNat = 53 := by omega
  unfold divCore
  simp only [htarget, hmin, hshift, Nat.shiftLeft_eq]

/-- The quotient of the mantissas, the first one shifted, has 53 bits or 54, and is rounded once. -/
theorem div_finite {m₁ m₂ : Nat} (s₁ s₂ : Sign) (e₁ e₂ : Int) (h₁ : m₁.log2 = 52)
    (h₂ : m₂.log2 = 52) (he : -1021 ≤ e₁ - e₂) :
    ∃ (k m : Nat) (hm : m.log2 = 52),
      UnpackedFloat.div .binary64 (.finite s₁ m₁ e₁ (pos_of_log2 h₁))
          (.finite s₂ m₂ e₂ (pos_of_log2 h₂)) =
        .finite (s₁ / s₂) m (e₁ - e₂ - 53 + k) (pos_of_log2 hm) ∧
      k ≤ 2 ∧ Nearest m (m₁ * 2 ^ 53) (m₂ * 2 ^ k) := by
  have hpos := pos_of_log2 h₂
  obtain ⟨hlow₁, hhigh₁⟩ := (log2_eq_52_iff (pos_of_log2 h₁)).mp h₁
  obtain ⟨hlow₂, hhigh₂⟩ := (log2_eq_52_iff hpos).mp h₂
  have hlow : 2 ^ 52 ≤ m₁ * 2 ^ 53 / m₂ := by
    refine (Nat.le_div_iff_mul_le hpos).mpr ?_
    exact Nat.mul_le_mul hlow₁ (Nat.le_of_lt hhigh₂)
  have hhigh : m₁ * 2 ^ 53 / m₂ < 2 ^ 54 := by
    refine (Nat.div_lt_iff_lt_mul hpos).mpr ?_
    omega
  have hne : m₁ * 2 ^ 53 / m₂ ≠ 0 := by omega
  have hlog : 52 ≤ (m₁ * 2 ^ 53 / m₂).log2 := (Nat.le_log2 hne).mpr hlow
  have hlog' : (m₁ * 2 ^ 53 / m₂).log2 < 54 := (Nat.log2_lt hne).mpr hhigh
  obtain ⟨k, m, hm, hround, hk, hnearest⟩ :=
    roundWithAccuracy_fraction (e := e₁ - e₂ - 53) (s₁ / s₂) hpos hlog (by omega)
  refine ⟨k, m, hm, ?_, by omega, hnearest⟩
  show (let (m, e, accuracy) := divCore .binary64 m₁ e₁ m₂ e₂
    roundWithAccuracy .binary64 (s₁ / s₂) m e accuracy) = _
  rw [divCore_eq h₁ h₂ he]
  exact hround

/-- **A quotient of integers** is rounded once: `m / 2 ^ p` is nearest to it among the multiples of
    `1 / 2 ^ p`, and `m` has 53 bits. -/
theorem unpack_div {a b : Int} (ha : a ≠ 0) (hb : b ≠ 0) (halt : a.natAbs < 2 ^ 51)
    (hblt : b.natAbs < 2 ^ 53) :
    ∃ (m p : Nat) (hm : m.log2 = 52),
      (Float.Model.ofInt a / Float.Model.ofInt b).unpack =
        .finite (signOf a / signOf b) m (-(p : Int)) (pos_of_log2 hm) ∧
      Nearest m (a.natAbs * 2 ^ p) b.natAbs := by
  have hapos := Int.natAbs_pos.mpr ha
  have halt' : a.natAbs < 2 ^ 53 := Nat.lt_trans halt (by decide)
  have hlog : a.natAbs.log2 < 51 := (Nat.log2_lt (Nat.ne_of_gt hapos)).mpr halt
  have hi := log2_add_places hapos halt'
  have hi' := places_le a.natAbs
  have hj := places_le b.natAbs
  obtain ⟨k, m, hm, hdiv, hk, hnearest⟩ := div_finite (signOf a) (signOf b)
    (-(places a.natAbs : Int)) (-(places b.natAbs : Int)) (log2_mul_places hapos halt')
    (log2_mul_places (Int.natAbs_pos.mpr hb) hblt) (by omega)
  -- `p` is what is left of the shifts when those of `a` and `b` are taken together
  obtain ⟨p, hp⟩ : ∃ p, places a.natAbs + 53 = p + (places b.natAbs + k) :=
    ⟨places a.natAbs + 53 - (places b.natAbs + k), by omega⟩
  have hexp : -(places a.natAbs : Int) - -(places b.natAbs : Int) - 53 + k = -(p : Int) := by omega
  refine ⟨m, p, hm, ?_, ?_⟩
  · show (Float.Model.pack (UnpackedFloat.div .binary64 (Float.Model.ofInt a).unpack
      (Float.Model.ofInt b).unpack)).unpack = _
    rw [unpack_ofInt ha halt', unpack_ofInt hb hblt, hdiv, finite_congr rfl rfl hexp]
    exact unpack_pack hm (by omega) (by omega) _
  · rw [Nat.mul_assoc, ← Nat.pow_add, hp, Nat.mul_assoc, ← Nat.pow_add, Nat.pow_add,
      ← Nat.mul_assoc] at hnearest
    exact (nearest_mul_right (Nat.two_pow_pos _)).mp hnearest

/-- A zero is divided into a zero, which has a sign. -/
theorem unpack_zero_div {b : Int} (hb : b ≠ 0) (hblt : b.natAbs < 2 ^ 53) :
    (Float.Model.ofInt 0 / Float.Model.ofInt b).unpack = .zero (signOf 0 / signOf b) := by
  show (Float.Model.pack (UnpackedFloat.div .binary64 (Float.Model.ofInt 0).unpack
    (Float.Model.ofInt b).unpack)).unpack = _
  rw [unpack_ofInt_zero, unpack_ofInt hb hblt]
  exact unpack_pack_zero _

end EltexHomeworks.Lib
