import EltexHomeworks.Lib.CInt

namespace EltexHomeworks.Calculator

open EltexHomeworks.Lib

/-!
# Calculator — the integer operations

`Add`, `Sub` and `Mult` store their result through a pointer and return `0`, or return `-1`; a
function here gives the return value and what is stored, and is `none` where an expression of it
overflows.  `Div` stores a `double`, of which `Float.Model` is the format and the rounding.
`operate` is the `switch` of `main`, with what it prints.

* `addOverflows_eq` — the condition of `Add` singles out the sums that are no `int`, and computes
  nothing that overflows itself;
* `exactOrReported_iff` — `Sub` and `Mult` keep this contract as long as there is nothing to report.
-/

/-! ### The functions of the library -/

/-- The condition of `Add`, with the order in which `&&` and `||` evaluate it. -/
def addOverflows (firstSummand secondSummand : CInt) : Option Bool := do
  let positive ←
    if firstSummand.val > 0 ∧ secondSummand.val > 0 then do
      let d ← CInt.max.sub secondSummand
      pure (decide (d.val < firstSummand.val))
    else pure false
  if positive then pure true
  else if firstSummand.val < 0 ∧ secondSummand.val < 0 then do
    let d ← CInt.min.sub secondSummand
    pure (decide (d.val > firstSummand.val))
  else pure false

def add (firstSummand secondSummand result : CInt) : Option (Int × CInt) := do
  let overflows ← addOverflows firstSummand secondSummand
  if overflows then pure (-1, result)
  else do
    let sum ← firstSummand.add secondSummand
    pure (0, sum)

def sub (minuend subtrahend _result : CInt) : Option (Int × CInt) := do
  let difference ← minuend.sub subtrahend
  pure (0, difference)

def mult (firstMultiplier secondMultiplier _result : CInt) : Option (Int × CInt) := do
  let product ← firstMultiplier.mul secondMultiplier
  pure (0, product)

/-- `Div`: both operands of the division are `double`s, of which every `int` is one. -/
def div (dividend divider : CInt) (result : Float.Model) : Int × Float.Model :=
  if divider.val = 0 then (-1, result) else (0, .ofInt dividend.val / .ofInt divider.val)

/-! ### The `switch` of `main` -/

/-- What `main` prints for a command. -/
inductive Output
  | resultate (result : CInt)
  | quotient (result : Float.Model)
  | typeOverflow
  | divisionByZero
deriving DecidableEq

/-- What is printed after an integer operation has returned: the result, or, after `-1`, the message
    of the command, if it has one. -/
def report (message : Option Output) (r : Int × CInt) : Option Output × CInt :=
  (if r.1 = -1 then message else some (.resultate r.2), r.2)

/-- The cases `1` to `4` of the `switch`, with what is printed and the new value of `result`;
    `none` when an expression overflows.  Any other number prints nothing. -/
def operate (commandNum : Int) (firstNumber secondNumber result : CInt) :
    Option (Option Output × CInt) :=
  if commandNum = 1 then (add firstNumber secondNumber result).map (report (some .typeOverflow))
  else if commandNum = 2 then (sub firstNumber secondNumber result).map (report none)
  else if commandNum = 3 then (mult firstNumber secondNumber result).map (report none)
  else if commandNum = 4 then
    -- `result_f` is printed only after `Div` has stored it: what it was before does not count
    let (catcher, resultF) := div firstNumber secondNumber (.ofInt 0)
    some (some (if catcher = -1 then .divisionByZero else .quotient resultF), result)
  else some (none, result)

/-! ### The contract -/

/-- The integer operations. -/
inductive Operation
  | add
  | sub
  | mult
deriving DecidableEq, Repr

namespace Operation

/-- The function of an operation. -/
def call : Operation → CInt → CInt → CInt → Option (Int × CInt)
  | .add => Calculator.add
  | .sub => Calculator.sub
  | .mult => Calculator.mult

/-- Its command. -/
def command : Operation → Int
  | .add => 1
  | .sub => 2
  | .mult => 3

/-- What it should compute. -/
def exact : Operation → Int → Int → Int
  | .add, a, b => a + b
  | .sub, a, b => a - b
  | .mult, a, b => a * b

end Operation

/-- For `a` and `b` the operation overflows nowhere, returns `-1` and stores nothing exactly when
    the result is no `int`, and otherwise returns `0` and stores the result; and what `main` prints
    as the result is the result. -/
structure ExactOrReported (op : Operation) (a b : CInt) : Prop where
  call : ∀ result, ∃ ret stored, op.call a b result = some (ret, stored) ∧
    (ret = -1 ∧ stored = result ↔ ¬ InRange (op.exact a.val b.val)) ∧
    (InRange (op.exact a.val b.val) → ret = 0 ∧ stored.val = op.exact a.val b.val)
  print : ∀ result x stored,
    operate op.command a b result = some (some (.resultate x), stored) →
      x.val = op.exact a.val b.val

/-- The condition of `Add` is evaluated without overflow, and is true exactly for the sums that are
    no `int`. -/
theorem addOverflows_eq (a b : CInt) :
    addOverflows a b = some (decide (¬ InRange (a.val + b.val))) := by
  obtain ⟨a, ha⟩ := a
  obtain ⟨b, hb⟩ := b
  have ha' : -2147483648 ≤ a ∧ a ≤ 2147483647 := ha
  have hb' : -2147483648 ≤ b ∧ b ≤ 2147483647 := hb
  unfold addOverflows
  by_cases hpos : a > 0 ∧ b > 0
  · -- `INT_MAX - b` is an `int`, and the sum can only be too large
    have hmax : InRange (CInt.max.val - b) := by
      show -2147483648 ≤ 2147483647 - b ∧ 2147483647 - b ≤ 2147483647
      omega
    have hneg : ¬ (a < 0 ∧ b < 0) := by omega
    have hiff : 2147483647 - b < a ↔ ¬ InRange (a + b) := by
      unfold InRange
      omega
    simp only [if_pos hpos, if_neg hneg, CInt.sub_eq (a := CInt.max) (b := ⟨b, hb⟩) hmax]
    by_cases hover : 2147483647 - b < a
    · simp [CInt.max, hover, hiff.mp hover]
    · simp [CInt.max, hover, Classical.not_not.mp (mt hiff.mpr hover)]
  · by_cases hneg : a < 0 ∧ b < 0
    · -- `INT_MIN - b` is one, and the sum can only be too small
      have hmin : InRange (CInt.min.val - b) := by
        show -2147483648 ≤ -2147483648 - b ∧ -2147483648 - b ≤ 2147483647
        omega
      have hiff : -2147483648 - b > a ↔ ¬ InRange (a + b) := by
        unfold InRange
        omega
      simp only [if_neg hpos, if_pos hneg, CInt.sub_eq (a := CInt.min) (b := ⟨b, hb⟩) hmin]
      simp [CInt.min, decide_eq_decide.mpr hiff]
    · -- summands of different signs
      have hrange : InRange (a + b) := by
        unfold InRange
        omega
      simp [if_neg hpos, if_neg hneg, hrange]

/-- What a call gives: `Add` reports a sum that is no `int`, the others overflow. -/
theorem add_eq (a b result : CInt) :
    add a b result = if h : InRange (a.val + b.val) then some (0, ⟨a.val + b.val, h⟩)
      else some (-1, result) := by
  unfold add
  rw [addOverflows_eq]
  by_cases h : InRange (a.val + b.val)
  · simp [h, CInt.add, CInt.checked]
  · simp [h]

/-- An operation whose result is an `int` stores it. -/
theorem Operation.call_of_inRange {op : Operation} {a b : CInt}
    (h : InRange (op.exact a.val b.val)) (result : CInt) :
    op.call a b result = some (0, ⟨op.exact a.val b.val, h⟩) := by
  cases op with
  | add => exact (add_eq a b result).trans (dif_pos h)
  | sub =>
    show (a.sub b).bind _ = _
    rw [CInt.sub_eq h]
    rfl
  | mult =>
    show (a.mul b).bind _ = _
    rw [CInt.mul_eq h]
    rfl

/-- `Sub` and `Mult` do not report: they overflow. -/
theorem Operation.call_of_not_inRange {op : Operation} {a b : CInt} (hop : op ≠ .add)
    (h : ¬ InRange (op.exact a.val b.val)) (result : CInt) : op.call a b result = none := by
  cases op with
  | add => exact absurd rfl hop
  | sub =>
    have hnone : a.sub b = none := CInt.checked_eq_none.mpr h
    show (a.sub b).bind _ = _
    rw [hnone]
    rfl
  | mult =>
    have hnone : a.mul b = none := CInt.checked_eq_none.mpr h
    show (a.mul b).bind _ = _
    rw [hnone]
    rfl

/-- `main` prints as the result what was stored, unless `-1` was returned. -/
theorem operate_eq (op : Operation) (a b result : CInt) :
    operate op.command a b result =
      (op.call a b result).map (report (if op = .add then some .typeOverflow else none)) := by
  cases op <;> rfl

/-- **Exact or reported** — `Add` for all operands, `Sub` and `Mult` exactly for those whose
    difference or product is an `int`. -/
theorem exactOrReported_iff (op : Operation) (a b : CInt) :
    ExactOrReported op a b ↔ op = .add ∨ InRange (op.exact a.val b.val) := by
  constructor
  · intro h
    by_contra hnot
    obtain ⟨hop, hrange⟩ := not_or.mp hnot
    obtain ⟨ret, stored, hcall, -⟩ := h.call .zero
    rw [Operation.call_of_not_inRange hop hrange] at hcall
    cases hcall
  · intro h
    by_cases hrange : InRange (op.exact a.val b.val)
    · constructor
      · intro result
        refine ⟨0, _, Operation.call_of_inRange hrange result, ?_, fun _ => ⟨rfl, rfl⟩⟩
        exact ⟨fun hret => absurd hret.1 (by decide), fun hnot => absurd hrange hnot⟩
      · intro result x stored hprint
        rw [operate_eq, Operation.call_of_inRange hrange] at hprint
        simp only [Option.map_some, report, Option.some.injEq, Prod.mk.injEq] at hprint
        rw [if_neg (by decide)] at hprint
        rw [← Output.resultate.inj (Option.some.inj hprint.1)]
    · -- `Add` reports, and `main` prints no result
      obtain rfl := h.resolve_right hrange
      have hcall : ∀ result, Operation.add.call a b result = some (-1, result) := fun result =>
        (add_eq a b result).trans (dif_neg hrange)
      constructor
      · intro result
        exact ⟨-1, result, hcall result, ⟨fun _ => hrange, fun _ => ⟨rfl, rfl⟩⟩,
          fun hin => absurd hin hrange⟩
      · intro result x stored hprint
        rw [operate_eq, hcall] at hprint
        simp [report] at hprint

/-- The least `int` minus one. -/
theorem not_exactOrReported_sub : ¬ ExactOrReported .sub .min ⟨1, by decide⟩ := by
  intro h
  obtain ⟨ret, stored, hcall, -⟩ := h.call .zero
  rw [show Operation.sub.call .min ⟨1, by decide⟩ .zero = none from by decide] at hcall
  cases hcall

end EltexHomeworks.Calculator
