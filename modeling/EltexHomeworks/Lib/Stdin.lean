import EltexHomeworks.Lib.CInt
import EltexHomeworks.Lib.CString

namespace EltexHomeworks.Lib

/-!
# Reading lines and numbers — `fgets` and `atoi`

`fgets` takes what is left of the current line, but no more than its limit, and leaves the rest to
the next call; at the end of the input it leaves the buffer as it was.  `atoi` reads a number from
the first bytes of a string and ignores what follows.

* `takeLine_line` — of a line, `fgets` takes the bytes up to its limit;
* `Stdin.fgets_line` — a line that fits is read whole, and the next one begins behind it;
* `atoi_line` — a number is read from a buffer as from the line that was read into it.
-/

/-- The bytes a reading function takes from `bs`: up to the first newline, and at most `n`. -/
def takeLine : Nat → List UInt8 → List UInt8
  | 0, _ => []
  | _ + 1, [] => []
  | n + 1, c :: cs => if c = 10 then [c] else c :: takeLine n cs

@[simp] theorem takeLine_nil (n : Nat) : takeLine n [] = [] := by cases n <;> rfl

theorem length_takeLine_le (n : Nat) (bs : List UInt8) : (takeLine n bs).length ≤ n := by
  induction n generalizing bs with
  | zero => exact Nat.le_refl _
  | succ n ih =>
    cases bs with
    | nil => exact Nat.zero_le _
    | cons c cs =>
      rw [takeLine]
      split
      · exact Nat.succ_le_succ (Nat.zero_le n)
      · exact Nat.succ_le_succ (ih cs)

/-- Of a line the first `n` bytes are taken, its newline being one of its bytes. -/
theorem takeLine_line {l : List UInt8} (h : 10 ∉ l) (r : List UInt8) (n : Nat) :
    takeLine n (l ++ 10 :: r) = (l ++ [10]).take n := by
  induction l generalizing n with
  | nil => cases n <;> simp [takeLine]
  | cons c l ih =>
    obtain ⟨hc, hl⟩ := not_or.mp (List.mem_cons.not.mp h)
    cases n with
    | zero => rfl
    | succ n =>
      rw [List.cons_append, takeLine, if_neg (Ne.symm hc), ih hl n, List.cons_append,
        List.take_succ_cons]

/-- A stream with the buffer it is read into. -/
structure Stdin (n : Nat) where
  /-- What was not read yet. -/
  rest : List UInt8
  /-- The next byte begins a line. -/
  lineStart : Bool
  buff : CharArray n

namespace Stdin

variable {n : Nat}

/-- There is a line to read, from its first byte on. -/
def atLine (s : Stdin n) : Bool := s.lineStart && !s.rest.isEmpty

/-- `fgets(buff, k, stdin)`. -/
def fgets (s : Stdin n) (k : Nat) : Stdin n :=
  let line := takeLine (k - 1) s.rest
  if line = [] then s
  else
    { rest := s.rest.drop line.length
      lineStart := line.getLast? = some 10
      buff := s.buff.recv (line ++ [0]) }

/-- The bytes of a buffer after a line was read into it. -/
theorem bytes_recv_append_nul (a : CharArray n) {d : List UInt8} (h : d.length + 1 ≤ n) :
    ∃ r, (a.recv (d ++ [0])).bytes = d ++ 0 :: r := by
  refine ⟨a.bytes.drop (d ++ [0]).length, ?_⟩
  rw [a.bytes_recv (by rw [List.length_append]; exact h), List.append_assoc, List.singleton_append]

/-- At the end of the input nothing changes. -/
theorem fgets_eof {s : Stdin n} (h : s.rest = []) (k : Nat) : s.fgets k = s := by
  rw [fgets, h, takeLine_nil]
  exact if_pos rfl

/-- The first part of a line, and the whole of it if it fits. -/
theorem fgets_part {s : Stdin n} {l r : List UInt8} {k : Nat} (h : s.rest = l ++ 10 :: r)
    (hl : 10 ∉ l) (hk : 2 ≤ k) :
    s.fgets k =
      ⟨(l ++ [10]).drop (k - 1) ++ r, decide (l.length + 2 ≤ k),
        s.buff.recv ((l ++ [10]).take (k - 1) ++ [0])⟩ := by
  have hline : takeLine (k - 1) s.rest = (l ++ [10]).take (k - 1) := by
    rw [h, takeLine_line hl]
  have hne : (l ++ [10]).take (k - 1) ≠ [] := by
    intro hnil
    have hlen := congrArg List.length hnil
    rw [List.length_take, List.length_append] at hlen
    simp at hlen
    omega
  have hsplit : l ++ 10 :: r = (l ++ [10]) ++ r := by simp
  have hrest : s.rest.drop ((l ++ [10]).take (k - 1)).length = (l ++ [10]).drop (k - 1) ++ r := by
    rw [h, hsplit, List.length_take]
    by_cases hle : k - 1 ≤ (l ++ [10]).length
    · rw [Nat.min_eq_left hle, List.drop_append_of_le_length hle]
    · rw [Nat.min_eq_right (by omega), List.drop_append_of_le_length (Nat.le_refl _),
        List.drop_length, List.drop_of_length_le (by omega)]
  -- the newline is the last byte, or was not reached
  have hlast : ((l ++ [10]).take (k - 1)).getLast? = some 10 ↔ l.length + 2 ≤ k := by
    constructor
    · intro hlast
      by_contra hlt
      rw [List.take_append_of_le_length (by omega)] at hlast
      exact hl (List.mem_of_mem_take (List.mem_of_getLast? hlast))
    · intro hle
      rw [List.take_of_length_le (by rw [List.length_append, List.length_singleton]; omega)]
      exact List.getLast?_concat
  simp only [fgets, hline, if_neg hne, hrest, hlast]

/-- A line that fits. -/
theorem fgets_line {s : Stdin n} {l r : List UInt8} {k : Nat} (h : s.rest = l ++ 10 :: r)
    (hl : 10 ∉ l) (hk : l.length + 2 ≤ k) :
    s.fgets k = ⟨r, true, s.buff.recv (l ++ [10] ++ [0])⟩ := by
  have hlen : (l ++ [10]).length ≤ k - 1 := by
    rw [List.length_append, List.length_singleton]
    omega
  rw [fgets_part h hl (by omega), List.drop_of_length_le hlen, List.take_of_length_le hlen,
    decide_eq_true hk, List.nil_append]

/-- After a `fgets` the buffer begins with the byte that was next, if there was one. -/
theorem head_fgets {s : Stdin n} {k : Nat} (hk : 2 ≤ k) (hn : k ≤ n) :
    (s.fgets k).buff.bytes.head? = if s.rest = [] then s.buff.bytes.head? else s.rest.head? := by
  obtain ⟨k, rfl⟩ : ∃ j, k = j + 2 := ⟨k - 2, by omega⟩
  cases hrest : s.rest with
  | nil => rw [fgets_eof hrest, if_pos rfl]
  | cons c cs =>
    rw [if_neg (List.cons_ne_nil c cs), fgets, hrest]
    have hline : ∃ t, takeLine (k + 2 - 1) (c :: cs) = c :: t ∧ t.length ≤ k := by
      show ∃ t, (if c = 10 then [c] else c :: takeLine k cs) = c :: t ∧ t.length ≤ k
      split
      · exact ⟨[], rfl, Nat.zero_le k⟩
      · exact ⟨takeLine k cs, rfl, length_takeLine_le k cs⟩
    obtain ⟨t, ht, hlen⟩ := hline
    rw [ht, if_neg (List.cons_ne_nil c t)]
    obtain ⟨r, hr⟩ := bytes_recv_append_nul s.buff (d := c :: t)
      (by rw [List.length_cons]; omega)
    rw [hr]
    rfl

end Stdin

/-! ### Numbers -/

/-- `isspace`. -/
def isSpace (c : UInt8) : Bool := c = 32 || (9 ≤ c && c ≤ 13)

/-- `isdigit`. -/
def isDigit (c : UInt8) : Bool := 48 ≤ c && c ≤ 57

/-- The number that the digits at the beginning of `s` stand for. -/
def digits (s : List UInt8) : Int :=
  (s.takeWhile isDigit).foldl (fun v c => 10 * v + (c.toNat - 48 : Int)) 0

/-- The same with a sign in front. -/
def number : List UInt8 → Int
  | [] => 0
  | c :: s => if c = 45 then -digits s else if c = 43 then digits s else digits (c :: s)

/-- `strtol(s, NULL, 10)`: white space, a sign, digits; the result is bounded by a 64-bit `long`. -/
def strtol (s : List UInt8) : Int :=
  Max.max (-9223372036854775808) (Min.min 9223372036854775807 (number (s.dropWhile isSpace)))

/-- `atoi(s)`: the `long` of `strtol`, converted to an `int` modulo 2^32. -/
def atoi (s : List UInt8) : CInt :=
  ⟨(strtol s + 2147483648) % 4294967296 - 2147483648, by unfold InRange; omega⟩

theorem takeWhile_append_cons_of_not {α : Type} {p : α → Bool} {x : α} (h : p x = false)
    (u v : List α) : (u ++ x :: v).takeWhile p = u.takeWhile p := by
  induction u with
  | nil => simp [h]
  | cons a u ih => cases ha : p a <;> simp [ha, ih]

/-- A newline ends a number. -/
theorem digits_line (s r : List UInt8) : digits (s ++ 10 :: r) = digits s := by
  rw [digits, digits, takeWhile_append_cons_of_not (by decide)]

theorem number_line {s : List UInt8} (h : s ≠ []) (r : List UInt8) :
    number (s ++ 10 :: r) = number s := by
  cases s with
  | nil => exact absurd rfl h
  | cons c s =>
    rw [List.cons_append, number, number, digits_line, ← List.cons_append, digits_line]

/-- A number is read from a line as from the line with its newline and a NUL behind it. -/
theorem atoi_line (s r : List UInt8) : atoi (s ++ [10] ++ 0 :: r) = atoi s := by
  have hnumber : number ((s ++ [10] ++ 0 :: r).dropWhile isSpace) =
      number (s.dropWhile isSpace) := by
    rw [List.append_assoc, List.singleton_append, List.dropWhile_append]
    split
    · -- a blank line: the newline is skipped, and the NUL is no digit
      rename_i hblank
      rw [List.isEmpty_iff.mp hblank]
      rfl
    · rename_i hne
      exact number_line (fun hnil => hne (List.isEmpty_iff.mpr hnil)) _
  unfold atoi strtol
  simp only [hnumber]

end EltexHomeworks.Lib
