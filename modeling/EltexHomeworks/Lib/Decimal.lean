import EltexHomeworks.Lib.Stdin
import Mathlib.Data.Nat.Digits.Lemmas

namespace EltexHomeworks.Lib

/-!
# Decimal numbers — `%d` against `atoi`

`printf` writes an `int` in its decimal digits, without leading zeros and with a `-` in front of a
negative one; `decimal` is that text.  `atoi` reads it back (`atoi_decimal`), and it is a line as
the reading functions want it: no newline in it, and at most eleven characters.
-/

/-- The character of a digit. -/
def digitChar (d : Nat) : UInt8 := UInt8.ofNat (48 + d)

/-- `printf("%u", n)`. -/
def natDecimal (n : Nat) : Str :=
  if n = 0 then [digitChar 0] else (Nat.digits 10 n).reverse.map digitChar

/-- `printf("%d", x)`. -/
def decimal (x : Int) : Str := if x < 0 then 45 :: natDecimal x.natAbs else natDecimal x.natAbs

/-! ### The digits -/

theorem toNat_digitChar {d : Nat} (h : d < 10) : (digitChar d).toNat = 48 + d := by
  rw [digitChar, UInt8.toNat_ofNat']
  omega

theorem isDigit_digitChar {d : Nat} (h : d < 10) : isDigit (digitChar d) = true := by
  have hd := toNat_digitChar h
  simp only [isDigit, Bool.and_eq_true, decide_eq_true_iff, UInt8.le_iff_toNat_le, hd]
  exact ⟨by simp, by simp; omega⟩

/-- A text of digits is read to its end. -/
theorem takeWhile_isDigit {s : Str} (h : ∀ c ∈ s, isDigit c = true) : s.takeWhile isDigit = s :=
  List.takeWhile_eq_self_iff.mpr h

/-- The most significant digit comes first, and each further one multiplies by ten. -/
theorem digits_reverse {ds : List Nat} (h : ∀ d ∈ ds, d < 10) :
    digits (ds.reverse.map digitChar) = (Nat.ofDigits 10 ds : Nat) := by
  have hdigits : ∀ c ∈ ds.reverse.map digitChar, isDigit c = true := by
    intro c hc
    obtain ⟨d, hd, rfl⟩ := List.mem_map.mp hc
    exact isDigit_digitChar (h d (List.mem_reverse.mp hd))
  rw [digits, takeWhile_isDigit hdigits]
  clear hdigits
  induction ds with
  | nil => rfl
  | cons d ds ih =>
    have hd := toNat_digitChar (h d List.mem_cons_self)
    rw [List.reverse_cons, List.map_append, List.foldl_append,
      ih fun x hx => h x (List.mem_cons_of_mem d hx), Nat.ofDigits_cons]
    simp only [List.map_cons, List.map_nil, List.foldl_cons, List.foldl_nil, hd]
    push_cast
    omega

theorem isDigit_of_mem_natDecimal {n : Nat} {c : UInt8} (h : c ∈ natDecimal n) :
    isDigit c = true := by
  unfold natDecimal at h
  split at h
  · rw [List.mem_singleton.mp h]
    exact isDigit_digitChar (by decide)
  · obtain ⟨d, hd, rfl⟩ := List.mem_map.mp h
    exact isDigit_digitChar (Nat.digits_lt_base (by decide) (List.mem_reverse.mp hd))

theorem natDecimal_ne_nil (n : Nat) : natDecimal n ≠ [] := by
  unfold natDecimal
  split
  · exact List.cons_ne_nil _ _
  · rename_i hn
    simpa using Nat.digits_ne_nil_iff_ne_zero.mpr hn

theorem digits_natDecimal (n : Nat) : digits (natDecimal n) = n := by
  unfold natDecimal
  split
  · rename_i hn
    rw [hn]
    rfl
  · rw [digits_reverse fun d hd => Nat.digits_lt_base (by decide) hd, Nat.ofDigits_digits]

/-- A number below a power of ten has no more digits than that. -/
theorem length_natDecimal_le {n k : Nat} (hk : 0 < k) (h : n < 10 ^ k) :
    (natDecimal n).length ≤ k := by
  unfold natDecimal
  split
  · exact hk
  · rw [List.length_map, List.length_reverse]
    exact (Nat.digits_length_le_iff (by decide) n).mpr h

/-! ### The sign -/

/-- White space is no digit, and neither is a sign. -/
theorem isSpace_eq_false_of_isDigit {c : UInt8} (h : isDigit c = true) :
    isSpace c = false ∧ c ≠ 45 ∧ c ≠ 43 := by
  simp only [isDigit, Bool.and_eq_true, decide_eq_true_iff, UInt8.le_iff_toNat_le] at h
  simp only [isSpace, Bool.or_eq_false_iff, Bool.and_eq_false_iff, decide_eq_false_iff_not,
    UInt8.le_iff_toNat_le, ne_eq, ← UInt8.toNat_inj]
  simp at h ⊢
  omega

/-- **Reading back** — the number of a decimal is the number it was made of. -/
theorem number_decimal (x : Int) : number ((decimal x).dropWhile isSpace) = x := by
  have hdigits := digits_natDecimal x.natAbs
  unfold decimal
  split
  · rw [List.dropWhile_cons_of_neg (by decide), number, if_pos rfl, hdigits]
    omega
  · -- the first character is a digit, neither white space nor a sign
    cases hs : natDecimal x.natAbs with
    | nil => exact absurd hs (natDecimal_ne_nil _)
    | cons c s =>
      obtain ⟨hspace, hminus, hplus⟩ := isSpace_eq_false_of_isDigit
        (isDigit_of_mem_natDecimal (hs ▸ List.mem_cons_self))
      rw [List.dropWhile_cons_of_neg (by simp [hspace]), number, if_neg hminus, if_neg hplus, ← hs,
        hdigits]
      omega

theorem atoi_decimal (a : CInt) : atoi (decimal a.val) = a := by
  obtain ⟨hlo, hhi⟩ := a.property
  apply Subtype.ext
  unfold atoi strtol
  simp only [number_decimal]
  omega

/-! ### A decimal as a line -/

theorem newline_not_mem_decimal (x : Int) : 10 ∉ decimal x := by
  have hnat : 10 ∉ natDecimal x.natAbs := fun h =>
    absurd (isDigit_of_mem_natDecimal h) (by decide)
  unfold decimal
  split
  · exact List.not_mem_cons_of_ne_of_not_mem (by decide) hnat
  · exact hnat

theorem length_decimal_le (a : CInt) : (decimal a.val).length ≤ 11 := by
  obtain ⟨hlo, hhi⟩ := a.property
  have hnat : (natDecimal a.val.natAbs).length ≤ 10 :=
    length_natDecimal_le (by decide) (by omega)
  unfold decimal
  split
  · exact Nat.succ_le_succ hnat
  · exact Nat.le_succ_of_le hnat

end EltexHomeworks.Lib
