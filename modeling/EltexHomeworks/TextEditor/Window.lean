import EltexHomeworks.Lib.CString

namespace EltexHomeworks.TextEditor

open EltexHomeworks.Lib

/-!
# Text editor — the window

`stdscr` as the editor uses it: a table of characters and a cursor, which is always on the screen.
`addch`, `move` and `mvdelch` are the documented effects of the curses calls on it; attributes and
colours are left out.  `scrollok` is off, so `addch` in the last cell leaves the cursor there.
-/

/-- A blank cell. -/
def blank : UInt8 := 32

/-- A window of `maxY` rows and `maxX` columns. -/
structure Window (maxY maxX : Nat) where
  cells : Fin maxY → Fin maxX → UInt8
  y : Fin maxY
  x : Fin maxX

namespace Window

variable {maxY maxX : Nat} (w : Window maxY maxX)

/-- The cell under the cursor becomes `c`. -/
def put (c : UInt8) : Window maxY maxX :=
  { w with cells := fun y x => if y = w.y ∧ x = w.x then c else w.cells y x }

/-- The cursor goes on to the next cell, with wrap at the end of a row. -/
def advance : Window maxY maxX :=
  if hx : w.x + 1 < maxX then { w with x := ⟨w.x + 1, hx⟩ }
  else if hy : w.y + 1 < maxY then
    { w with y := ⟨w.y + 1, hy⟩, x := ⟨0, Nat.zero_lt_of_lt w.x.isLt⟩ }
  else w

/-- `addch(c)` for a printable `c`. -/
def addch (c : UInt8) : Window maxY maxX := (w.put c).advance

/-- `move(y, x)`; off the screen it returns `ERR` and the cursor stays. -/
def move (y x : Int) : Window maxY maxX :=
  if h : (0 ≤ y ∧ y < maxY) ∧ 0 ≤ x ∧ x < maxX then
    { w with y := ⟨y.toNat, by omega⟩, x := ⟨x.toNat, by omega⟩ }
  else w

/-- `mvdelch(y, x)` at the cursor: the rest of the row moves to the left, and a blank comes in. -/
def delch : Window maxY maxX :=
  { w with
    cells := fun y x =>
      if y = w.y ∧ w.x ≤ x then
        if h : x + 1 < maxX then w.cells y ⟨x + 1, h⟩ else blank
      else w.cells y x }

/-- The text `msg` in a subwindow of one row at the left of the last row, `len` columns wide;
    `stdscr` shares its cells. -/
def bar (len : Nat) (msg : Str) : Window maxY maxX :=
  { w with
    cells := fun y x =>
      if y + 1 = maxY ∧ x < len then msg.getD x blank else w.cells y x }

theorem cells_put (c : UInt8) (y : Fin maxY) (x : Fin maxX) :
    (w.put c).cells y x = if y = w.y ∧ x = w.x then c else w.cells y x := rfl

@[simp] theorem cells_advance : w.advance.cells = w.cells := by
  unfold advance
  split
  · rfl
  · split <;> rfl

@[simp] theorem cells_move (y x : Int) : (w.move y x).cells = w.cells := by
  unfold move
  split <;> rfl

@[simp] theorem cells_addch (c : UInt8) : (w.addch c).cells = (w.put c).cells := cells_advance _

/-- `move` to a cell of the screen. -/
theorem move_eq (y : Fin maxY) (x : Fin maxX) {y' x' : Int} (hy : y' = y) (hx : x' = x) :
    w.move y' x' = { w with y := y, x := x } := by
  subst hy hx
  unfold move
  rw [dif_pos (by have := y.isLt; have := x.isLt; omega)]
  rfl

/-- With a column to its right the cursor goes there. -/
theorem addch_of_lt (c : UInt8) (h : w.x.val + 1 < maxX) :
    w.addch c = { w.put c with x := ⟨w.x + 1, h⟩ } :=
  dif_pos h

/-- Putting a character changes nothing exactly where it stands already. -/
theorem cells_put_eq_iff (c : UInt8) : (w.put c).cells = w.cells ↔ w.cells w.y w.x = c := by
  constructor
  · intro h
    rw [← h, cells_put, if_pos ⟨rfl, rfl⟩]
  · intro h
    funext y x
    rw [cells_put]
    split
    · rename_i hyx
      rw [hyx.1, hyx.2, h]
    · rfl

/-! ### `mvdelch` in the first column -/

/-- The row of the cursor, without its first cell, is blank. -/
def RestBlank : Prop := ∀ x : Fin maxX, 0 < x.val → w.cells w.y x = blank

theorem cells_delch_of_ne {y : Fin maxY} (hy : y ≠ w.y) (x : Fin maxX) :
    w.delch.cells y x = w.cells y x :=
  if_neg fun h => hy h.1

/-- In the first column the whole row moves. -/
theorem cells_delch (hx : w.x.val = 0) (x : Fin maxX) :
    w.delch.cells w.y x = if h : x + 1 < maxX then w.cells w.y ⟨x + 1, h⟩ else blank :=
  if_pos ⟨rfl, by rw [Fin.le_def]; omega⟩

/-- A row that moves over the blank rest of itself becomes blank. -/
theorem cells_delch_of_restBlank (hx : w.x.val = 0) (h : w.RestBlank) (x : Fin maxX) :
    w.delch.cells w.y x = blank := by
  rw [w.cells_delch hx]
  split
  · exact h _ (Nat.succ_pos _)
  · rfl

/-- Moving the row is putting a blank in its first cell exactly when the rest is blank. -/
theorem cells_delch_eq_put_iff (hx : w.x.val = 0) :
    w.delch.cells = (w.put blank).cells ↔ w.RestBlank := by
  constructor
  · intro h
    -- the blank of the first cell goes through the row, one cell at a time
    have hcell : ∀ (n : Nat) (hn : n + 1 < maxX), w.cells w.y ⟨n + 1, hn⟩ = blank := by
      intro n
      induction n with
      | zero =>
        intro hn
        -- the second cell has moved to the first, which is blank
        have h0 := congrFun (congrFun h w.y) w.x
        rw [w.cells_delch hx, dif_pos (by omega), cells_put, if_pos ⟨rfl, rfl⟩] at h0
        rw [← h0]
        congr 2
        omega
      | succ n ih =>
        intro hn
        have hstep := congrFun (congrFun h w.y) ⟨n + 1, by omega⟩
        rw [w.cells_delch hx, dif_pos hn, cells_put, if_neg, ih] at hstep
        · exact hstep
        · rintro ⟨_, he⟩
          rw [← he] at hx
          exact absurd hx (Nat.succ_ne_zero n)
    intro x h0
    obtain ⟨n, hn⟩ := Nat.exists_eq_succ_of_ne_zero (Nat.ne_of_gt h0)
    have := hcell n (by have := x.isLt; omega)
    rw [← this]
    congr 1
    exact Fin.ext hn
  · -- a blank row looks the same moved by one cell
    intro h
    funext y x
    by_cases hy : y = w.y
    · subst hy
      rw [w.cells_delch_of_restBlank hx h, cells_put]
      split
      · rfl
      · rename_i hne
        refine (h x (Nat.pos_of_ne_zero fun h0 => hne ⟨rfl, Fin.ext ?_⟩)).symm
        rw [h0, hx]
    · rw [w.cells_delch_of_ne hy, cells_put, if_neg fun h => hy h.1]

/-- Moving the row changes nothing exactly when all of it is blank. -/
theorem cells_delch_eq_iff (hx : w.x.val = 0) :
    w.delch.cells = w.cells ↔ w.RestBlank ∧ w.cells w.y w.x = blank := by
  constructor
  · intro h
    -- from the right: the last cell is blank, and each cell is the next one
    have hcell : ∀ (n : Nat) (x : Fin maxX), x + n + 1 = maxX → w.cells w.y x = blank := by
      intro n
      induction n with
      | zero =>
        intro x hn
        rw [← h, w.cells_delch hx, dif_neg (by omega)]
      | succ n ih =>
        intro x hn
        rw [← h, w.cells_delch hx, dif_pos (by omega)]
        exact ih ⟨x + 1, by omega⟩ (by show x.val + 1 + n + 1 = maxX; omega)
    have hall : ∀ x, w.cells w.y x = blank := fun x =>
      hcell (maxX - 1 - x) x (by have := x.isLt; omega)
    exact ⟨fun x _ => hall x, hall w.x⟩
  · rintro ⟨hrest, h0⟩
    rw [(w.cells_delch_eq_put_iff hx).mpr hrest, cells_put_eq_iff]
    exact h0

end Window

end EltexHomeworks.TextEditor
