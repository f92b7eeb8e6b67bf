import EltexHomeworks.Calculator.Protocol
import EltexHomeworks.Lib.Fixed

namespace EltexHomeworks.Calculator

open EltexHomeworks.Lib

/-!
# Calculator — a session

`converse` is `main` with everything it prints: the prompts of every turn and the text of what the
`switch` prints, up to the turn that quits.  It is `none` where an operation overflows, and where
the turns are not enough.

A `Request` is entered the way `printf` writes numbers, in three lines (`script`):

* `prints_request` — a turn for a request prints the two prompts and the answer, and the next turn
  begins behind the request;
* `tenth` — what is printed for a division is a nearest tenth to the exact quotient;
* `session_iff` — the calculator answers all the requests of a session exactly when none of their
  differences and products overflows.
-/

/-! ### What is printed -/

/-- The characters of a text. -/
def chars (s : String) : Str := s.toList.map fun c => UInt8.ofNat c.toNat

/-- The first prompt. -/
def enterNumbers : Str := chars "Enter two numbers:\n"

/-- The second prompt. -/
def enterCommand : Str :=
  chars "Enter the command number for further action: \n" ++ chars "(1) Addition\n" ++
    chars "(2) Subtraction\n" ++ chars "(3) Multiplication\n" ++ chars "(4) Division\n" ++
    chars "(0) Quit\n"

/-- Both prompts of a turn. -/
def prompts : Str := enterNumbers ++ enterCommand

/-- The texts of `main`: an `int` with `%d`, a `double` with `%.1f`. -/
def Output.text : Output → Str
  | .resultate result => chars "Resultate operation = " ++ decimal result.val ++ chars "\n"
  | .quotient result => chars "Resultate operation = " ++ fixed1 result ++ chars "\n"
  | .typeOverflow => chars "\nError: type overflow\n"
  | .divisionByZero => chars "\nError: division by zero\n"

/-- The turns of the loop, at most `fuel` of them, with what they print. -/
def converse : Nat → Stdin BUFF_SIZE → CInt → Option Str
  | 0, _, _ => none
  | fuel + 1, s, result =>
    if (pass s).2.command = 0 then some prompts
    else do
      let p := (pass s).2
      let (output, result) ← operate p.command p.first p.second result
      let further ← converse fuel (pass s).1 result
      pure (prompts ++ (output.map Output.text).getD [] ++ further)

/-! ### Requests -/

/-- The operations of the menu. -/
inductive MenuItem
  | addition
  | subtraction
  | multiplication
  | division
deriving DecidableEq

/-- The character to enter. -/
def MenuItem.char : MenuItem → UInt8
  | .addition => 49
  | .subtraction => 50
  | .multiplication => 51
  | .division => 52

/-- Two numbers and what to do with them. -/
structure Request where
  first : CInt
  second : CInt
  item : MenuItem

namespace Request

/-- The difference or the product that has to be computed is an `int`; `Add` and `Div` look
    first. -/
def Safe (r : Request) : Prop :=
  (r.item = .subtraction → InRange (r.first.val - r.second.val)) ∧
    (r.item = .multiplication → InRange (r.first.val * r.second.val))

/-- The exact result, or why there is none; of a division the nearest `double`. -/
def answer (r : Request) : Output :=
  let resultate (x : Int) : Output := if h : InRange x then .resultate ⟨x, h⟩ else .typeOverflow
  match r.item with
  | .addition => resultate (r.first.val + r.second.val)
  | .subtraction => resultate (r.first.val - r.second.val)
  | .multiplication => resultate (r.first.val * r.second.val)
  | .division => if r.second.val = 0 then .divisionByZero
    else .quotient (.ofInt r.first.val / .ofInt r.second.val)

/-- What is printed for a quotient is a number of tenths, none nearer to it, with its sign. -/
def Tenth (r : Request) : Prop :=
  r.item = .division → r.second.val ≠ 0 →
    ∃ t, r.answer.text = chars "Resultate operation = " ++
        ((if r.first.val < 0 ↔ r.second.val < 0 then [] else [45]) ++ tenths t) ++ chars "\n" ∧
      Nearest t (10 * r.first.val.natAbs) r.second.val.natAbs

/-- A number on a line of its own. -/
def numberLine (a : CInt) : Line :=
  ⟨decimal a.val, newline_not_mem_decimal a.val, by
    have hlen := length_decimal_le a
    omega⟩

/-- A menu item on a line of its own. -/
def itemLine (i : MenuItem) : Line := ⟨[i.char], by cases i <;> decide⟩

/-- The lines to enter. -/
def group (r : Request) : Group := ⟨numberLine r.first, numberLine r.second, itemLine r.item⟩

end Request

/-- The lines of a group. -/
def Group.lines (g : Group) : List Line := [g.first, g.second, g.command]

/-! ### One request -/

namespace Request

variable {r : Request}

/-- **A quotient is right to a tenth**, though the operands, their quotient and the decimal are
    rounded one after the other: an `int` is a `double`, and a `double` is much finer. -/
theorem tenth (r : Request) : r.Tenth := by
  obtain ⟨first, second, item⟩ := r
  rintro (rfl : item = .division) (hne : second.val ≠ 0)
  have hfirst : -2147483648 ≤ first.val ∧ first.val ≤ 2147483647 := first.property
  have hsecond : -2147483648 ≤ second.val ∧ second.val ≤ 2147483647 := second.property
  obtain ⟨t, htext, hnearest⟩ := fixed1_div (a := first.val) hne (by omega) (by omega)
  refine ⟨t, ?_, hnearest⟩
  have hanswer : answer ⟨first, second, .division⟩ =
      .quotient (.ofInt first.val / .ofInt second.val) := if_neg hne
  rw [hanswer, Output.text, htext]

/-- The turn for a request has its numbers. -/
theorem pass_group (r : Request) :
    r.group.pass = ⟨r.first, r.second, charToInt r.item.char - 48, true⟩ := by
  show (⟨atoi (decimal r.first.val), atoi (decimal r.second.val), _, true⟩ : Pass) = _
  rw [atoi_decimal, atoi_decimal]
  rfl

theorem command_ne_zero (r : Request) : r.group.pass.command ≠ 0 := by
  rw [r.pass_group]
  show charToInt r.item.char - 48 ≠ 0
  cases r.item <;> decide

/-- The operation of a safe request gives the answer. -/
theorem operate_of_safe (h : r.Safe) (result : CInt) :
    ∃ result', operate (charToInt r.item.char - 48) r.first r.second result =
      some (some r.answer, result') := by
  obtain ⟨first, second, item⟩ := r
  -- three of the four cases return an `int`
  have hresultate : ∀ op : Operation, ∀ hrange : InRange (op.exact first.val second.val),
      answer ⟨first, second, item⟩ = .resultate ⟨_, hrange⟩ →
      ∃ result', operate op.command first second result =
        some (some (answer ⟨first, second, item⟩), result') := by
    intro op hrange hanswer
    refine ⟨⟨_, hrange⟩, ?_⟩
    rw [operate_eq, Operation.call_of_inRange hrange, hanswer]
    rfl
  cases item with
  | addition =>
    by_cases hrange : InRange (first.val + second.val)
    · exact hresultate .add hrange (dif_pos hrange)
    · -- `Add` looks first, and reports
      have hcall : Operation.add.call first second result = some (-1, result) :=
        (add_eq first second result).trans (dif_neg hrange)
      refine ⟨result, (operate_eq .add first second result).trans ?_⟩
      rw [hcall]
      simp [report, answer, hrange]
  | subtraction => exact hresultate .sub (h.1 rfl) (dif_pos (h.1 rfl))
  | multiplication => exact hresultate .mult (h.2 rfl) (dif_pos (h.2 rfl))
  | division =>
    refine ⟨result, ?_⟩
    by_cases hzero : second.val = 0 <;> simp [operate, charToInt, MenuItem.char, div, answer, hzero]

/-- The operation of one that is not overflows. -/
theorem operate_of_not_safe (h : ¬ r.Safe) (result : CInt) :
    operate (charToInt r.item.char - 48) r.first r.second result = none := by
  obtain ⟨first, second, item⟩ := r
  have hoverflow : ∀ op : Operation, op ≠ .add → ¬ InRange (op.exact first.val second.val) →
      operate op.command first second result = none := by
    intro op hop hrange
    rw [operate_eq, Operation.call_of_not_inRange hop hrange]
    rfl
  cases item with
  | addition => exact absurd ⟨nofun, nofun⟩ h
  | subtraction => exact hoverflow .sub (by decide) fun hrange => h ⟨fun _ => hrange, nofun⟩
  | multiplication => exact hoverflow .mult (by decide) fun hrange => h ⟨nofun, fun _ => hrange⟩
  | division => exact absurd ⟨nofun, nofun⟩ h

end Request

/-! ### All of them -/

section Session

variable {g : Group} {after : List Line}

/-- What a request adds to the output. -/
def Request.reply (r : Request) : Str := prompts ++ r.answer.text

/-- The lines of requests. -/
def script (rs : List Request) : List Line := rs.flatMap fun r => r.group.lines

/-- The calculator prints `out` and ends. -/
def Prints (s : Stdin BUFF_SIZE) (result : CInt) (out : Str) : Prop :=
  ∃ fuel, converse fuel s result = some out

/-- A group that quits is answered with the prompts alone. -/
theorem prints_quit (hquits : g.quits = true) (buff : CharArray BUFF_SIZE) (result : CInt)
    (out : Str) : Prints (start (g.lines ++ after) buff) result out ↔ out = prompts := by
  obtain ⟨buff', hpass, -⟩ := pass_group g.first g.second g.command after buff
  have hzero : (pass (start (g.lines ++ after) buff)).2.command = 0 := by
    rw [show pass (start (g.lines ++ after) buff) = _ from hpass]
    exact g.command_eq_zero_iff.mpr hquits
  constructor
  · rintro ⟨fuel, hrun⟩
    cases fuel with
    | zero => cases hrun
    | succ fuel =>
      rw [converse, if_pos hzero] at hrun
      exact (Option.some.inj hrun).symm
  · rintro rfl
    exact ⟨1, by rw [converse, if_pos hzero]⟩

/-- **A request** is answered if it is safe, and the loop goes on behind its lines; if it is not,
    the loop does not get any further. -/
theorem prints_request (r : Request) (lines : List Line) (buff : CharArray BUFF_SIZE)
    (result : CInt) :
    ∃ buff' result', ∀ out,
      Prints (start (r.group.lines ++ lines) buff) result out ↔
        r.Safe ∧ ∃ further, out = r.reply ++ further ∧
          Prints (start lines buff') result' further := by
  obtain ⟨buff', hpass, -⟩ := pass_group r.group.first r.group.second r.group.command lines buff
  -- the command line fits, so that the next turn begins at the next line
  have hturn : pass (start (r.group.lines ++ lines) buff) =
      (start lines buff', ⟨r.first, r.second, charToInt r.item.char - 48, true⟩) := by
    rw [← r.pass_group]
    exact hpass
  have hcommand : charToInt r.item.char - 48 ≠ 0 := by
    have h := r.command_ne_zero
    rwa [r.pass_group] at h
  by_cases hsafe : r.Safe
  · obtain ⟨result', hoperate⟩ := Request.operate_of_safe hsafe result
    have hstep : ∀ fuel, converse (fuel + 1) (start (r.group.lines ++ lines) buff)
        result = (converse fuel (start lines buff') result').map
          (r.reply ++ ·) := by
      -- one turn more, of which the prompts and the answer are the output
      intro fuel
      rw [converse, hturn, if_neg hcommand]
      simp only [hoperate, Option.bind_eq_bind, Option.bind_some, Option.map_some,
        Option.getD_some]
      cases converse fuel (start lines buff') result' <;> rfl
    refine ⟨buff', result', fun out => ⟨?_, ?_⟩⟩
    · rintro ⟨fuel, hrun⟩
      cases fuel with
      | zero => cases hrun
      | succ fuel =>
        rw [hstep] at hrun
        obtain ⟨further, hfurther, rfl⟩ := Option.map_eq_some_iff.mp hrun
        exact ⟨hsafe, further, rfl, fuel, hfurther⟩
    · rintro ⟨-, further, rfl, fuel, hfurther⟩
      exact ⟨fuel + 1, by rw [hstep, hfurther]; rfl⟩
  · -- an operation that overflows has no next turn
    refine ⟨buff', result, fun out => iff_of_false ?_ fun h => hsafe h.1⟩
    rintro ⟨fuel, hrun⟩
    cases fuel with
    | zero => cases hrun
    | succ fuel =>
      rw [converse, hturn, if_neg hcommand] at hrun
      simp only [Request.operate_of_not_safe hsafe] at hrun
      cases hrun

/-- The requests are answered one after the other, whatever is entered behind them. -/
theorem prints_script (rs : List Request) (hquits : g.quits = true) (after : List Line)
    (buff : CharArray BUFF_SIZE) (result : CInt) (out : Str) :
    Prints (start (script rs ++ g.lines ++ after) buff) result out ↔
      (∀ r ∈ rs, r.Safe) ∧ out = rs.flatMap Request.reply ++ prompts := by
  induction rs generalizing buff result out with
  | nil =>
    rw [script, List.flatMap_nil, List.nil_append, prints_quit hquits, List.flatMap_nil,
      List.nil_append]
    exact (and_iff_right (List.forall_mem_nil _)).symm
  | cons r rs ih =>
    have hlines : script (r :: rs) ++ g.lines ++ after =
        r.group.lines ++ (script rs ++ g.lines ++ after) := by
      simp [script]
    obtain ⟨buff', result', hrequest⟩ :=
      prints_request r (script rs ++ g.lines ++ after) buff result
    rw [hlines, hrequest, List.forall_mem_cons, List.flatMap_cons, and_assoc]
    refine and_congr_right fun _ => ?_
    constructor
    · rintro ⟨further, rfl, hfurther⟩
      obtain ⟨hsafe, rfl⟩ := (ih buff' result' further).mp hfurther
      exact ⟨hsafe, (List.append_assoc _ _ _).symm⟩
    · rintro ⟨hsafe, rfl⟩
      exact ⟨_, List.append_assoc _ _ _, (ih buff' result' _).mpr ⟨hsafe, rfl⟩⟩

/-- **A session** — the calculator answers all the requests, in their order, and ends with the group
    that quits, exactly when none of the differences and products overflows; what is entered behind
    that group makes no difference.  The answer to a division is right to a tenth. -/
theorem session_iff (rs : List Request) (hquits : g.quits = true) (after : List Line)
    (buff : CharArray BUFF_SIZE) (result : CInt) (out : Str) :
    (Prints (start (script rs ++ g.lines ++ after) buff) result out ↔
        (∀ r ∈ rs, r.Safe) ∧ out = rs.flatMap Request.reply ++ prompts) ∧
      ∀ r ∈ rs, r.Tenth :=
  ⟨prints_script rs hquits after buff result out, fun r _ => r.tenth⟩

end Session

/-- `2147483647 + 1`, `7 - 10` and `-7 / 2`, and then the third line begins with `0`. -/
theorem session_iff_overflow :
    let buff : CharArray BUFF_SIZE := ⟨List.replicate 255 0, List.length_replicate⟩
    let rs : List Request := [⟨.max, ⟨1, by decide⟩, .addition⟩,
      ⟨⟨7, by decide⟩, ⟨10, by decide⟩, .subtraction⟩,
      ⟨⟨-7, by decide⟩, ⟨2, by decide⟩, .division⟩]
    let g : Group := ⟨⟨[], by decide⟩, ⟨[], by decide⟩, ⟨[48], by decide⟩⟩
    Prints (start (script rs ++ g.lines ++ []) buff) .zero
      (prompts ++ chars "\nError: type overflow\n" ++
        (prompts ++ chars "Resultate operation = -3\n" ++
          (prompts ++ chars "Resultate operation = -3.5\n")) ++ prompts) := by
  intro buff rs g
  refine (session_iff rs (g := g) rfl [] buff .zero _).1.mpr ⟨?_, ?_⟩
  · intro r hr
    simp only [rs, List.mem_cons, List.not_mem_nil, or_false] at hr
    rcases hr with rfl | rfl | rfl
    · exact ⟨nofun, nofun⟩
    · exact ⟨fun _ => by decide, nofun⟩
    · exact ⟨nofun, nofun⟩
  · decide +kernel

end EltexHomeworks.Calculator
