import EltexHomeworks.Calculator.Arithmetic
import EltexHomeworks.Lib.Stdin

namespace EltexHomeworks.Calculator

open EltexHomeworks.Lib

/-!
# Calculator — the loop over its input

A turn of `main` reads two numbers and a command with three `fgets` into one buffer, the last of
them for at most two bytes.  What a command line has beyond them is left to the first `fgets` of the
next turn, and at the end of the input the buffer keeps what was read last, again and again.

The `Input` are lines of less than 255 characters, in groups of three.  `Follows` is what the
calculator should do with them:

* `pass_group` — a turn at the beginning of a group does what the group says;
* `follows_iff` — the whole input is followed exactly when a group quits before any command line is
  too long for its `fgets`, or when the input ends with something that looks like a quit.
-/

/-- The size of `buff`. -/
def BUFF_SIZE : Nat := 255

/-- A `char` as an `int`. -/
def charToInt (c : UInt8) : Int := if c.toNat < 128 then c.toNat else c.toNat - 256

/-- A turn of the loop: what was read from `buff`, and whether each of the three `fgets` began at
    the beginning of a line.  It executes `operate command first second`. -/
structure Pass where
  first : CInt
  second : CInt
  command : Int
  fresh : Bool
deriving DecidableEq

/-- A turn of the loop. -/
def pass (s : Stdin BUFF_SIZE) : Stdin BUFF_SIZE × Pass :=
  let s₁ := s.fgets 255
  let s₂ := s₁.fgets 255
  let s₃ := s₂.fgets 3
  (s₃,
    { first := atoi s₁.buff.bytes
      second := atoi s₂.buff.bytes
      command := charToInt (s₃.buff.bytes.headD 0) - 48
      fresh := s.atLine && s₁.atLine && s₂.atLine })

/-- The turns of the loop up to the one that ends it, if that is one of the first `fuel`. -/
def loop : Nat → Stdin BUFF_SIZE → Option (List Pass)
  | 0, _ => none
  | fuel + 1, s =>
    if (pass s).2.command = 0 then some [(pass s).2]
    else (loop fuel (pass s).1).map ((pass s).2 :: ·)

/-! ### Groups of lines -/

/-- A line of less than 255 characters, its newline being the last of them. -/
abbrev Line := { l : Str // 10 ∉ l ∧ l.length + 1 < 255 }

/-- Lines as they are read. -/
def input (lines : List Line) : List UInt8 := lines.flatMap fun l => l.val ++ [10]

/-- The loop before its first turn. -/
def start (lines : List Line) (buff : CharArray BUFF_SIZE) : Stdin BUFF_SIZE where
  rest := input lines
  lineStart := true
  buff := buff

/-- Two operands and a command. -/
structure Group where
  first : Line
  second : Line
  command : Line

/-- The complete groups. -/
def groups : List Line → List Group
  | a :: b :: c :: lines => ⟨a, b, c⟩ :: groups lines
  | _ => []

/-- The lines of a group that is not complete. -/
def leftover : List Line → List Line
  | _ :: _ :: _ :: lines => leftover lines
  | lines => lines

namespace Group

/-- The turn for a group: `atoi` of its operands, and the first character of its command. -/
def pass (g : Group) : Pass where
  first := atoi g.first.val
  second := atoi g.second.val
  command := charToInt ((g.command.val ++ [10]).headD 0) - 48
  fresh := true

/-- The command starts with `0`. -/
def quits (g : Group) : Bool := g.command.val.head? = some 48

/-- The command line is no longer than one character. -/
def fits (g : Group) : Bool := g.command.val.length ≤ 1

end Group

/-- The groups before the first that quits. -/
def executed (lines : List Line) : List Group := (groups lines).takeWhile fun g => !g.quits

/-- The loop ends after one operation for each group before the first that quits, with the operands
    and the command of the group, and if there is one that quits it ends with that. -/
def Follows (lines : List Line) (buff : CharArray BUFF_SIZE) : Prop :=
  ∃ fuel last, loop fuel (start lines buff) = some ((executed lines).map Group.pass ++ [last]) ∧
    ∀ g, (groups lines).find? Group.quits = some g → last = g.pass

/-- What the buffer begins with at the end of the input: the last line behind the groups, else what
    is left of the last command line behind its first two bytes, else that command line, else what
    was in the buffer. -/
def residue (lines : List Line) (buff : CharArray BUFF_SIZE) : List UInt8 :=
  match (leftover lines).getLast?, (groups lines).getLast? with
  | some l, _ => l.val ++ [10]
  | none, some g => if g.fits then g.command.val ++ [10] else g.command.val.drop 2 ++ [10]
  | none, none => buff.bytes

/-- A group quits and every command line before it fits, or none quits, every command line but the
    last fits, and the residue starts with `0`. -/
def Orderly (lines : List Line) (buff : CharArray BUFF_SIZE) : Prop :=
  (∃ before g after, groups lines = before ++ g :: after ∧ g.quits = true ∧
      ∀ x ∈ before, x.fits = true) ∨
    ((∀ g ∈ groups lines, g.quits = false) ∧ (∀ g ∈ (groups lines).dropLast, g.fits = true) ∧
      (residue lines buff).head? = some 48)

/-! ### One turn -/

/-- The command is `0` when the buffer starts with that character. -/
theorem command_eq_zero_iff (bs : List UInt8) :
    charToInt (bs.headD 0) - 48 = 0 ↔ bs.head? = some 48 := by
  have hchar : ∀ c : UInt8, charToInt c - 48 = 0 ↔ c = 48 := by
    intro c
    have hlt := c.toNat_lt
    rw [← UInt8.toNat_inj, show (48 : UInt8).toNat = 48 from rfl]
    unfold charToInt
    split <;> omega
  cases bs with
  | nil => exact ⟨fun h => absurd h (by decide), nofun⟩
  | cons c bs => simp [hchar c]

theorem Group.command_eq_zero_iff (g : Group) : g.pass.command = 0 ↔ g.quits = true := by
  rw [Group.pass, Calculator.command_eq_zero_iff, Group.quits, decide_eq_true_iff]
  cases g.command.val with
  | nil => exact ⟨nofun, nofun⟩
  | cons c l => rfl

theorem input_cons (l : Line) (lines : List Line) :
    input (l :: lines) = l.val ++ 10 :: input lines := by simp [input]

/-- A line that was read is in the buffer with its newline and a NUL. -/
theorem atoi_recv_line (buff : CharArray BUFF_SIZE) (l : Line) :
    atoi (buff.recv (l.val ++ [10] ++ [0])).bytes = atoi l.val := by
  obtain ⟨r, hr⟩ := Stdin.bytes_recv_append_nul buff (d := l.val ++ [10])
    (by rw [List.length_append, List.length_singleton]; exact l.property.2)
  rw [hr, atoi_line]

/-- **A turn at the beginning of a group** is the turn of the group.  If the command line fits, the
    next turn is at the beginning of the next line, and otherwise in the middle of the command. -/
theorem pass_group (a b c : Line) (lines : List Line) (buff : CharArray BUFF_SIZE) :
    ∃ buff' : CharArray BUFF_SIZE,
      pass (start (a :: b :: c :: lines) buff) =
        (⟨(c.val ++ [10]).drop 2 ++ input lines, decide (c.val.length ≤ 1), buff'⟩,
          Group.pass ⟨a, b, c⟩) ∧
      buff'.bytes.head? = (c.val ++ [10]).head? := by
  -- the first two calls of `fgets` take a line each
  have hatLine : ∀ (l : Line) (rest : List Line) (buff : CharArray BUFF_SIZE),
      (⟨input (l :: rest), true, buff⟩ : Stdin BUFF_SIZE).atLine = true := by
    intro l rest buff
    simp [Stdin.atLine, input_cons]
  have hline : ∀ (l : Line) (rest : List Line) (buff : CharArray BUFF_SIZE),
      (⟨input (l :: rest), true, buff⟩ : Stdin BUFF_SIZE).fgets 255 =
        ⟨input rest, true, buff.recv (l.val ++ [10] ++ [0])⟩ := by
    intro l rest buff
    have hfits := l.property.2
    exact Stdin.fgets_line (input_cons l rest) l.property.1 (by omega)
  let buff₁ := buff.recv (a.val ++ [10] ++ [0])
  let buff₂ := buff₁.recv (b.val ++ [10] ++ [0])
  let buff₃ := buff₂.recv ((c.val ++ [10]).take 2 ++ [0])
  have hcommand : (⟨input (c :: lines), true, buff₂⟩ : Stdin BUFF_SIZE).fgets 3 =
      ⟨(c.val ++ [10]).drop 2 ++ input lines, decide (c.val.length ≤ 1), buff₃⟩ := by
    rw [Stdin.fgets_part (input_cons c lines) c.property.1 (by decide)]
    congr 1
    exact decide_eq_decide.mpr (by omega)
  -- of the command two bytes were read, and the first of them counts
  have hhead : buff₃.bytes.head? = (c.val ++ [10]).head? := by
    have hread := Stdin.head_fgets (s := (⟨input (c :: lines), true, buff₂⟩ : Stdin BUFF_SIZE))
      (k := 3) (by decide) (by decide)
    rw [hcommand, if_neg (by rw [input_cons]; simp)] at hread
    rw [show buff₃.bytes.head? = (input (c :: lines)).head? from hread, input_cons]
    cases c.val <;> rfl
  -- with the three calls known the turn is computed
  refine ⟨buff₃, ?_, hhead⟩
  rw [start, pass]
  simp only [hline]
  rw [show (buff.recv (a.val ++ [10] ++ [0])).recv (b.val ++ [10] ++ [0]) = buff₂ from rfl,
    hcommand]
  simp only [hatLine, Group.pass, Prod.mk.injEq, Pass.mk.injEq, true_and]
  refine ⟨atoi_recv_line buff a, atoi_recv_line buff₁ b, ?_, rfl⟩
  rw [List.headD_eq_head?_getD, List.headD_eq_head?_getD, hhead]

/-- A turn whose `fgets` do not all begin at the beginning of a line is none of a group. -/
theorem not_fresh {s : Stdin BUFF_SIZE} (h : s.lineStart = false) : (pass s).2.fresh = false := by
  simp [pass, Stdin.atLine, h]

/-! ### The end of the input -/

/-- The line that was read last, else what was in the buffer. -/
def lastRead (lines : List Line) (bytes : List UInt8) : List UInt8 :=
  (lines.getLast?.map fun l => l.val ++ [10]).getD bytes

theorem lastRead_cons (l : Line) (lines : List Line) (bytes : List UInt8) :
    lastRead (l :: lines) bytes = lastRead lines (l.val ++ [10]) := by
  cases lines with
  | nil => rfl
  | cons l' lines =>
    rw [lastRead, lastRead, List.getLast?_cons_cons,
      List.getLast?_eq_some_getLast (List.cons_ne_nil l' lines)]
    rfl

theorem head_input (l : Line) (lines : List Line) :
    (input (l :: lines)).head? = (l.val ++ [10]).head? := by
  rw [input_cons]
  cases l.val <;> rfl

/-- A whole line is read, or there is none and the buffer stays as it is. -/
theorem lastRead_fgets {s : Stdin BUFF_SIZE} {lines : List Line} (hrest : s.rest = input lines) :
    (s.fgets 255).rest = input lines.tail ∧
      (lastRead lines.tail (s.fgets 255).buff.bytes).head? =
        (lastRead lines s.buff.bytes).head? := by
  cases lines with
  | nil =>
    rw [Stdin.fgets_eof hrest]
    exact ⟨hrest, rfl⟩
  | cons l lines =>
    have hfits := l.property.2
    have hne : s.rest ≠ [] := by
      rw [hrest, input_cons]
      simp
    refine ⟨?_, ?_⟩
    · rw [Stdin.fgets_line (hrest.trans (input_cons l lines)) l.property.1 (by omega)]
      rfl
    · rw [lastRead_cons, List.tail_cons]
      cases lines with
      | cons l' lines => rw [lastRead_cons, lastRead_cons]
      | nil =>
        have hread := Stdin.head_fgets (s := s) (k := 255) (by decide) (by decide)
        rwa [if_neg hne, hrest, head_input] at hread

/-- **The last turn.**  With no more than three lines left, the command is what the last of them
    begins with, or, with none, what the buffer does. -/
theorem command_pass_eq_zero_iff {s : Stdin BUFF_SIZE} {lines : List Line}
    (hrest : s.rest = input lines) (hlen : lines.length ≤ 3) :
    (pass s).2.command = 0 ↔ (lastRead lines s.buff.bytes).head? = some 48 := by
  obtain ⟨hrest₁, hhead₁⟩ := lastRead_fgets hrest
  obtain ⟨hrest₂, hhead₂⟩ := lastRead_fgets hrest₁
  have hlen₂ : lines.tail.tail.length ≤ 1 := by
    rw [List.length_tail, List.length_tail]
    omega
  have hread := Stdin.head_fgets (s := (s.fgets 255).fgets 255) (k := 3) (by decide) (by decide)
  have hcommand : (((s.fgets 255).fgets 255).fgets 3).buff.bytes.head? =
      (lastRead lines s.buff.bytes).head? := by
    rw [hread, hrest₂, ← hhead₁, ← hhead₂]
    match lines.tail.tail, hlen₂ with
    | [], _ => rfl
    | [c], _ =>
      rw [if_neg (by rw [input_cons]; simp), head_input]
      rfl
  rw [← hcommand]
  exact command_eq_zero_iff _

/-! ### The turns -/

/-- The loop ends after the turns `ps`. -/
def Ends (s : Stdin BUFF_SIZE) (ps : List Pass) : Prop := ∃ fuel, loop fuel s = some ps

theorem ends_of_zero {s : Stdin BUFF_SIZE} (h : (pass s).2.command = 0) (ps : List Pass) :
    Ends s ps ↔ ps = [(pass s).2] := by
  constructor
  · rintro ⟨fuel, hloop⟩
    cases fuel with
    | zero => simp [loop] at hloop
    | succ fuel =>
      rw [loop, if_pos h] at hloop
      exact (Option.some.inj hloop).symm
  · rintro rfl
    exact ⟨1, by rw [loop, if_pos h]⟩

theorem ends_of_ne_zero {s : Stdin BUFF_SIZE} (h : (pass s).2.command ≠ 0) (ps : List Pass) :
    Ends s ps ↔ ∃ qs, ps = (pass s).2 :: qs ∧ Ends (pass s).1 qs := by
  constructor
  · rintro ⟨fuel, hloop⟩
    cases fuel with
    | zero => simp [loop] at hloop
    | succ fuel =>
      rw [loop, if_neg h] at hloop
      obtain ⟨qs, hqs, rfl⟩ := Option.map_eq_some_iff.mp hloop
      exact ⟨qs, rfl, fuel, hqs⟩
  · rintro ⟨qs, rfl, fuel, hloop⟩
    exact ⟨fuel + 1, by rw [loop, if_neg h, hloop]; rfl⟩

/-- The first turn is the one from the first state. -/
theorem Ends.head {s : Stdin BUFF_SIZE} {p : Pass} {ps : List Pass} (h : Ends s (p :: ps)) :
    p = (pass s).2 := by
  by_cases hzero : (pass s).2.command = 0
  · exact (List.cons.inj ((ends_of_zero hzero _).mp h)).1
  · obtain ⟨qs, hqs, -⟩ := (ends_of_ne_zero hzero _).mp h
    exact (List.cons.inj hqs).1

/-- A single turn is the last. -/
theorem ends_singleton_iff {s : Stdin BUFF_SIZE} {p : Pass} :
    Ends s [p] ↔ p = (pass s).2 ∧ (pass s).2.command = 0 := by
  by_cases hzero : (pass s).2.command = 0
  · rw [ends_of_zero hzero, List.singleton_inj]
    exact (and_iff_left hzero).symm
  · rw [ends_of_ne_zero hzero]
    refine ⟨?_, fun h => absurd h.2 hzero⟩
    rintro ⟨qs, hqs, hends⟩
    -- no loop ends without a turn
    obtain rfl : [] = qs := (List.cons.inj hqs).2
    obtain ⟨fuel, hloop⟩ := hends
    cases fuel with
    | zero => simp [loop] at hloop
    | succ fuel =>
      rw [loop] at hloop
      split at hloop <;> simp at hloop

/-- The groups as they should be executed from `s` on. -/
def FollowsFrom (s : Stdin BUFF_SIZE) (gs : List Group) : Prop :=
  ∃ last, Ends s ((gs.takeWhile fun g => !g.quits).map Group.pass ++ [last]) ∧
    ∀ g, gs.find? Group.quits = some g → last = g.pass

theorem follows_iff_followsFrom (lines : List Line) (buff : CharArray BUFF_SIZE) :
    Follows lines buff ↔ FollowsFrom (start lines buff) (groups lines) := by
  constructor
  · rintro ⟨fuel, last, hloop, hlast⟩
    exact ⟨last, ⟨fuel, hloop⟩, hlast⟩
  · rintro ⟨last, ⟨fuel, hloop⟩, hlast⟩
    exact ⟨fuel, last, hloop, hlast⟩

/-- With no group left the next turn has to be the last. -/
theorem followsFrom_nil_iff (s : Stdin BUFF_SIZE) :
    FollowsFrom s [] ↔ (pass s).2.command = 0 := by
  constructor
  · rintro ⟨last, hends, -⟩
    exact (ends_singleton_iff.mp hends).2
  · intro hzero
    exact ⟨(pass s).2, ends_singleton_iff.mpr ⟨rfl, hzero⟩, nofun⟩

/-- A group that quits is followed by a turn for it. -/
theorem followsFrom_quits {s : Stdin BUFF_SIZE} {g : Group} (h : (pass s).2 = g.pass)
    (hquits : g.quits = true) (gs : List Group) : FollowsFrom s (g :: gs) := by
  have hzero : (pass s).2.command = 0 := by
    rw [h]
    exact g.command_eq_zero_iff.mpr hquits
  refine ⟨g.pass, ?_, ?_⟩
  · rw [List.takeWhile_cons_of_neg (by simp [hquits])]
    exact ends_singleton_iff.mpr ⟨h.symm, hzero⟩
  · intro g' hfind
    rw [List.find?_cons_of_pos hquits] at hfind
    rw [Option.some.inj hfind]

/-- After the turn for a group that does not quit, the groups behind it are to be followed. -/
theorem followsFrom_cons_iff {s : Stdin BUFF_SIZE} {g : Group} (h : (pass s).2 = g.pass)
    (hquits : g.quits = false) (gs : List Group) :
    FollowsFrom s (g :: gs) ↔ FollowsFrom (pass s).1 gs := by
  have hne : (pass s).2.command ≠ 0 := by
    rw [h]
    exact g.command_eq_zero_iff.not.mpr (by simp [hquits])
  unfold FollowsFrom
  rw [List.takeWhile_cons_of_pos (by simp [hquits]),
    List.find?_cons_of_neg (by simp [hquits]), List.map_cons]
  refine exists_congr fun last => and_congr_left fun _ => ?_
  rw [List.cons_append, ends_of_ne_zero hne, h]
  constructor
  · rintro ⟨qs, hqs, hends⟩
    rw [(List.cons.inj hqs).2]
    exact hends
  · intro hends
    exact ⟨_, rfl, hends⟩

/-- A turn that does not begin at the beginning of a line is a turn for no group. -/
theorem not_followsFrom_of_not_fresh {s : Stdin BUFF_SIZE} (h : s.lineStart = false) (g : Group)
    (gs : List Group) : ¬ FollowsFrom s (g :: gs) := by
  rintro ⟨last, hends, hlast⟩
  have hturn : (pass s).2 = g.pass := by
    by_cases hquits : g.quits = true
    · rw [List.takeWhile_cons_of_neg (by simp [hquits])] at hends
      rw [← hlast g (List.find?_cons_of_pos hquits)]
      exact hends.head.symm
    · rw [List.takeWhile_cons_of_pos (by simp [hquits])] at hends
      exact hends.head.symm
  have hfresh := not_fresh h
  rw [hturn] at hfresh
  exact absurd hfresh (by simp [Group.pass])

/-! ### Groups that do not disturb each other -/

theorem length_lt_of_groups_eq_nil {lines : List Line} (h : groups lines = []) :
    lines.length < 3 := by
  match lines, h with
  | [], _ => simp
  | [_], _ => simp
  | [_, _], _ => simp
  | _ :: _ :: _ :: _, h => simp [groups] at h

theorem leftover_of_groups_eq_nil {lines : List Line} (h : groups lines = []) :
    leftover lines = lines := by
  match lines, h with
  | [], _ => rfl
  | [_], _ => rfl
  | [_, _], _ => rfl
  | _ :: _ :: _ :: _, h => simp [groups] at h

/-- Without a complete group only the residue counts. -/
theorem orderly_of_groups_eq_nil {lines : List Line} (h : groups lines = [])
    (buff : CharArray BUFF_SIZE) :
    Orderly lines buff ↔ (lastRead lines buff.bytes).head? = some 48 := by
  have hresidue : residue lines buff = lastRead lines buff.bytes := by
    rw [residue, leftover_of_groups_eq_nil h, h, lastRead]
    cases lines.getLast? <;> rfl
  constructor
  · rintro (⟨before, g, after, hgroups, -⟩ | ⟨-, -, hhead⟩)
    · rw [h] at hgroups
      exact absurd hgroups.symm (List.append_ne_nil_of_right_ne_nil _ (List.cons_ne_nil g after))
    · rwa [hresidue] at hhead
  · intro hhead
    refine .inr ⟨?_, ?_, hresidue ▸ hhead⟩ <;> simp [h]

/-- A first group that quits is enough. -/
theorem orderly_quits {a b c : Line} (h : (Group.mk a b c).quits = true) (lines : List Line)
    (buff : CharArray BUFF_SIZE) : Orderly (a :: b :: c :: lines) buff :=
  .inl ⟨[], ⟨a, b, c⟩, groups lines, rfl, h, nofun⟩

/-- A first group that does not quit and fits changes nothing for the others. -/
theorem orderly_cons_iff {a b c : Line} (hquits : (Group.mk a b c).quits = false)
    (hfits : (Group.mk a b c).fits = true) (lines : List Line) {buff buff' : CharArray BUFF_SIZE}
    (hbuff : buff'.bytes.head? = (c.val ++ [10]).head?) :
    Orderly (a :: b :: c :: lines) buff ↔ Orderly lines buff' := by
  -- what is in `buff` at the end comes from the lines behind the first group
  have hresidue : (residue (a :: b :: c :: lines) buff).head? = (residue lines buff').head? := by
    unfold residue
    rw [groups, leftover]
    cases (leftover lines).getLast? with
    | some l => rfl
    | none =>
      cases hlast : groups lines with
      | nil =>
        simp only [List.getLast?_singleton, List.getLast?_nil, if_pos hfits]
        exact hbuff.symm
      | cons g gs =>
        rw [List.getLast?_cons_cons, List.getLast?_eq_some_getLast (List.cons_ne_nil g gs)]
  unfold Orderly
  rw [hresidue]
  -- a later group quits, or the end of the input finds a zero in `buff`
  refine or_congr ?_ ?_
  · constructor
    · rintro ⟨before, g, after, hgroups, hg, hbefore⟩
      cases before with
      | nil =>
        rw [← (List.cons.inj hgroups).1, hquits] at hg
        exact absurd hg (by decide)
      | cons x before =>
        exact ⟨before, g, after, (List.cons.inj hgroups).2, hg,
          fun y hy => hbefore y (List.mem_cons_of_mem x hy)⟩
    · rintro ⟨before, g, after, hgroups, hg, hbefore⟩
      refine ⟨⟨a, b, c⟩ :: before, g, after, ?_, hg, List.forall_mem_cons.mpr ⟨hfits, hbefore⟩⟩
      rw [groups, hgroups, List.cons_append]
  · -- the condition on all groups but the last one goes to those behind the first
    rw [groups, List.forall_mem_cons, and_iff_right hquits]
    refine and_congr_right fun _ => and_congr_left fun _ => ?_
    cases groups lines with
    | nil => simp
    | cons g gs => rw [List.dropLast_cons_cons, List.forall_mem_cons, and_iff_right hfits]

/-- Behind a command line that is too long there can be no group, and what is left of that line
    counts as a line. -/
theorem orderly_of_not_fits {a b c : Line} (hquits : (Group.mk a b c).quits = false)
    (hfits : (Group.mk a b c).fits = false) (lines : List Line) (buff : CharArray BUFF_SIZE) :
    Orderly (a :: b :: c :: lines) buff ↔
      groups lines = [] ∧ (lastRead lines (c.val.drop 2 ++ [10])).head? = some 48 := by
  -- no group is left, and what the last `fgets` reads is all that counts
  have hnil : groups lines = [] →
      residue (a :: b :: c :: lines) buff = lastRead lines (c.val.drop 2 ++ [10]) := by
    intro hnil
    rw [residue, leftover, leftover_of_groups_eq_nil hnil, groups, hnil, List.getLast?_singleton,
      lastRead]
    cases lines.getLast? with
    | some l => rfl
    | none => simp [hfits]
  constructor
  · rintro (⟨before, g, after, hgroups, hg, hbefore⟩ | ⟨-, hdrop, hhead⟩)
    · -- the first group does not quit, and is none of those before
      cases before with
      | nil =>
        rw [← (List.cons.inj hgroups).1, hquits] at hg
        exact absurd hg (by decide)
      | cons x before =>
        have hx := hbefore x List.mem_cons_self
        rw [← (List.cons.inj hgroups).1, hfits] at hx
        exact absurd hx (by decide)
    · -- the group that does not fit must be the last one
      have hgroups : groups lines = [] := by
        by_contra hne
        rw [groups, List.dropLast_cons_of_ne_nil hne, List.forall_mem_cons, hfits] at hdrop
        exact absurd hdrop.1 (by decide)
      rw [hnil hgroups] at hhead
      exact ⟨hgroups, hhead⟩
  · rintro ⟨hgroups, hhead⟩
    refine .inr ⟨?_, ?_, (hnil hgroups).symm ▸ hhead⟩
    · rw [groups, hgroups]
      exact List.forall_mem_singleton.mpr hquits
    · rw [groups, hgroups]
      nofun

/-- In the middle of a command line there can be no group left, and the next turn has to be the
    last. -/
theorem followsFrom_rest_iff {c : Line} (hlen : ¬ c.val.length ≤ 1) (lines : List Line)
    (buff : CharArray BUFF_SIZE) :
    FollowsFrom ⟨(c.val ++ [10]).drop 2 ++ input lines, false, buff⟩ (groups lines) ↔
      groups lines = [] ∧ (lastRead lines (c.val.drop 2 ++ [10])).head? = some 48 := by
  cases hgroups : groups lines with
  | cons g gs =>
    refine iff_of_false (not_followsFrom_of_not_fresh rfl g gs) ?_
    exact fun h => absurd h.1 (List.cons_ne_nil g gs)
  | nil =>
    -- what is left of the command is the first of at most three lines
    have hshort := length_lt_of_groups_eq_nil hgroups
    have hfits := c.property.2
    let c' : Line := ⟨c.val.drop 2, fun h => c.property.1 (List.mem_of_mem_drop h), by
      rw [List.length_drop]
      omega⟩
    have hrest : (c.val ++ [10]).drop 2 ++ input lines = input (c' :: lines) := by
      rw [input_cons, List.drop_append_of_le_length (by omega), List.append_assoc,
        List.singleton_append]
    have hlast := command_pass_eq_zero_iff (s := ⟨_, false, buff⟩) hrest (by
      rw [List.length_cons]
      omega)
    rw [followsFrom_nil_iff, and_iff_right rfl, hlast, lastRead_cons]

/-! ### The whole input -/

/-- **The calculator follows its input** exactly when the groups are orderly: a group quits before a
    command line is too long, or the input ends with what looks like a quit. -/
theorem follows_iff (lines : List Line) (buff : CharArray BUFF_SIZE) :
    Follows lines buff ↔ Orderly lines buff := by
  rw [follows_iff_followsFrom]
  induction lines using groups.induct generalizing buff with
  | case1 a b c lines ih =>
    obtain ⟨buff', hpass, hbuff⟩ := pass_group a b c lines buff
    have hturn : (pass (start (a :: b :: c :: lines) buff)).2 = Group.pass ⟨a, b, c⟩ := by
      rw [hpass]
    rw [groups]
    -- over the groups: the first one quits, or the turns behind it have the rest of the input
    cases hquits : (Group.mk a b c).quits with
    | true => exact iff_of_true (followsFrom_quits hturn hquits _) (orderly_quits hquits lines buff)
    | false =>
      rw [followsFrom_cons_iff hturn hquits, hpass]
      cases hfits : (Group.mk a b c).fits with
      | true =>
        have hlen : c.val.length ≤ 1 := of_decide_eq_true hfits
        have hdrop : (c.val ++ [10]).drop 2 = [] := by
          rw [List.drop_eq_nil_iff, List.length_append, List.length_singleton]
          omega
        rw [orderly_cons_iff hquits hfits lines hbuff, ← ih buff', hdrop, decide_eq_true hlen]
        rfl
      | false =>
        -- the rest of its command line is read as if it were a line
        have hlen : ¬ c.val.length ≤ 1 := of_decide_eq_false hfits
        rw [orderly_of_not_fits hquits hfits, decide_eq_false hlen]
        exact followsFrom_rest_iff hlen lines buff'
  | case2 lines hshort =>
    -- fewer than three lines are left, and one turn more reads what is left in `buff`
    have hgroups : groups lines = [] := by
      rw [groups]
      exact hshort
    rw [hgroups, followsFrom_nil_iff, orderly_of_groups_eq_nil hgroups]
    exact command_pass_eq_zero_iff (s := start lines buff) rfl
      (Nat.le_of_lt (length_lt_of_groups_eq_nil hgroups))

/-- `5`, `6`, `1 ` with a space, then `7`, `1`, `0`. -/
def spaced : List Line :=
  [⟨[53], by decide⟩, ⟨[54], by decide⟩, ⟨[49, 32], by decide⟩,
    ⟨[55], by decide⟩, ⟨[49], by decide⟩, ⟨[48], by decide⟩]

/-- The second turn adds `0`, for the newline of the first command line, to the `7` of the group
    that should have ended the loop. -/
theorem not_follows_spaced :
    let buff : CharArray BUFF_SIZE := ⟨List.replicate 255 0, List.length_replicate⟩
    (loop 3 (start spaced buff)).map (List.map fun p => (p.first.val, p.second.val, p.command)) =
        some [(5, 6, 1), (0, 7, 1), (0, 0, 0)] ∧
      ¬ Follows spaced buff := by
  refine ⟨by decide +kernel, ?_⟩
  obtain ⟨buff', hpass, -⟩ := pass_group ⟨[53], by decide⟩ ⟨[54], by decide⟩ ⟨[49, 32], by decide⟩
    [⟨[55], by decide⟩, ⟨[49], by decide⟩, ⟨[48], by decide⟩]
    ⟨List.replicate 255 0, List.length_replicate⟩
  rw [follows_iff_followsFrom]
  intro h
  have hnext := (followsFrom_cons_iff (congrArg Prod.snd hpass) rfl _).mp h
  rw [hpass] at hnext
  exact not_followsFrom_of_not_fresh rfl _ _ hnext

end EltexHomeworks.Calculator
