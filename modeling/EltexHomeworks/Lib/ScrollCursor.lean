import Mathlib.Tactic.Basic
import Mathlib.Data.List.Induction

namespace EltexHomeworks.Lib

/-!
# Scroll cursors — a selected row in a window over a list

A list of `n` entries is seen through a window of `size` rows.  Row `0` is covered by the
frame, so the cursor walks over rows `1 … size - 1` and entry `0` is never selected; when the
cursor leaves the window the list is scrolled by one, and at either end of the list it wraps
to the other one.

A `ScrollCursor` carries its well-formedness: the cursor is on a usable row, the row shows an
entry, and the window shows no less of the list than it could.  `next` and `prev` are the two
moves.

* `entry_walk` — the entries form a ring: a walk leads to the entry that its number of moves down,
  less those up, gives modulo the `n - 1` entries that can be selected, whatever `size` is;
* `exists_walk` — so every entry but the first can be selected;
* `fills_iff` — along a walk every row below the frame shows an entry exactly as long as the last
  entry is not selected.
-/

/-- A cursor on row `row` of a window that shows the entries from `top` on.  It is never on row
    `0`, and a list of more than `size` entries fills the window. -/
structure ScrollCursor (n size : Nat) where
  /-- The entry shown on row `0`. -/
  top : Nat
  /-- The row the cursor is on. -/
  row : Nat
  row_pos : 1 ≤ row
  row_lt : row < size
  entry_lt : top + row < n
  top_eq : n ≤ size → top = 0
  top_le : size < n → top + size ≤ n

namespace ScrollCursor

variable {n size : Nat}

/-- The entry the cursor selects. -/
def entry (c : ScrollCursor n size) : Nat := c.top + c.row

/-- The cursor on the first entry that can be selected. -/
def first (hn : 2 ≤ n) (hs : 2 ≤ size) : ScrollCursor n size where
  top := 0
  row := 1
  row_pos := Nat.le_refl 1
  row_lt := hs
  entry_lt := by omega
  top_eq := fun _ => rfl
  top_le := by omega

/-- The cursor on the last entry. -/
def last (hn : 2 ≤ n) (hs : 2 ≤ size) : ScrollCursor n size where
  top := n - size
  row := min n size - 1
  row_pos := by omega
  row_lt := by omega
  entry_lt := by omega
  top_eq := by omega
  top_le := by omega

/-- A window with a cursor in it has at least two rows and shows at least two entries. -/
theorem two_le (c : ScrollCursor n size) : 2 ≤ n ∧ 2 ≤ size := by
  have h1 := c.row_pos
  have h2 := c.row_lt
  have h3 := c.entry_lt
  omega

/-- One entry down: the next row, or a scroll by one, or back to the first entry. -/
def next (c : ScrollCursor n size) : ScrollCursor n size :=
  if hn : c.top + c.row + 1 < n then
    if hr : c.row + 1 < size then
      { c with
        row := c.row + 1
        row_pos := by omega
        row_lt := hr
        entry_lt := by omega }
    else
      { c with
        top := c.top + 1
        entry_lt := by omega
        top_eq := by have := c.top_eq; omega
        top_le := by omega }
  else first c.two_le.1 c.two_le.2

/-- One entry up: the previous row, or a scroll by one, or on to the last entry. -/
def prev (c : ScrollCursor n size) : ScrollCursor n size :=
  if hr : 1 < c.row then
    { c with
      row := c.row - 1
      row_pos := by omega
      row_lt := by have := c.row_lt; omega
      entry_lt := by have := c.entry_lt; omega }
  else if ht : 0 < c.top then
    { c with
      top := c.top - 1
      entry_lt := by have := c.entry_lt; omega
      top_eq := by have := c.top_eq; omega
      top_le := by have := c.top_le; omega }
  else last c.two_le.1 c.two_le.2

/-! ### Where the moves lead -/

variable {c : ScrollCursor n size}

theorem next_of_row (hn : c.top + c.row + 1 < n) (hr : c.row + 1 < size) :
    c.next.top = c.top ∧ c.next.row = c.row + 1 := by
  rw [next, dif_pos hn, dif_pos hr]
  exact ⟨rfl, rfl⟩

theorem next_of_scroll (hn : c.top + c.row + 1 < n) (hr : size ≤ c.row + 1) :
    c.next.top = c.top + 1 ∧ c.next.row = c.row := by
  rw [next, dif_pos hn, dif_neg (by omega)]
  exact ⟨rfl, rfl⟩

theorem next_of_end (hn : n ≤ c.top + c.row + 1) : c.next.top = 0 ∧ c.next.row = 1 := by
  rw [next, dif_neg (by omega)]
  exact ⟨rfl, rfl⟩

theorem prev_of_row (hr : 1 < c.row) : c.prev.top = c.top ∧ c.prev.row = c.row - 1 := by
  rw [prev, dif_pos hr]
  exact ⟨rfl, rfl⟩

theorem prev_of_scroll (hr : c.row ≤ 1) (ht : 0 < c.top) :
    c.prev.top = c.top - 1 ∧ c.prev.row = c.row := by
  rw [prev, dif_neg (by omega), dif_pos ht]
  exact ⟨rfl, rfl⟩

theorem prev_of_end (hr : c.row ≤ 1) (ht : c.top = 0) :
    c.prev.top = n - size ∧ c.prev.row = min n size - 1 := by
  rw [prev, dif_neg (by omega), dif_neg (by omega)]
  exact ⟨rfl, rfl⟩

theorem entry_pos (c : ScrollCursor n size) : 1 ≤ c.entry := by
  have h := c.row_pos
  unfold entry
  omega

/-! ### The ring of entries -/

/-- The two moves. -/
inductive Move
  | up
  | down
deriving DecidableEq, Repr

/-- The cursor after a move. -/
def move (c : ScrollCursor n size) : Move → ScrollCursor n size
  | .up => c.prev
  | .down => c.next

/-- The cursor after several moves. -/
def walk (c : ScrollCursor n size) (ms : List Move) : ScrollCursor n size := ms.foldl move c

/-- The moves down, less the moves up. -/
def net (ms : List Move) : Int := (ms.count .down : Int) - ms.count .up

@[simp] theorem walk_nil (c : ScrollCursor n size) : c.walk [] = c := rfl

theorem walk_cons (c : ScrollCursor n size) (m : Move) (ms : List Move) :
    c.walk (m :: ms) = (c.move m).walk ms := rfl

theorem walk_concat (c : ScrollCursor n size) (ms : List Move) (m : Move) :
    c.walk (ms ++ [m]) = (c.walk ms).move m := by
  rw [walk, walk, List.foldl_append]
  rfl

@[simp] theorem net_nil : net [] = 0 := rfl

theorem net_append (ms ms' : List Move) : net (ms ++ ms') = net ms + net ms' := by
  simp only [net, List.count_append]
  omega

theorem net_cons (m : Move) (ms : List Move) : net (m :: ms) = net [m] + net ms :=
  net_append [m] ms

/-- Below the last entry comes the first one. -/
theorem entry_next (c : ScrollCursor n size) :
    c.next.entry = if c.entry + 1 < n then c.entry + 1 else 1 := by
  have hc : c.entry = c.top + c.row := rfl
  have hc' : c.next.entry = c.next.top + c.next.row := rfl
  by_cases hn : c.entry + 1 < n
  · rw [if_pos hn]
    rcases Nat.lt_or_ge (c.row + 1) size with hr | hr
    · obtain ⟨ht', hr'⟩ := c.next_of_row hn hr
      omega
    · obtain ⟨ht', hr'⟩ := c.next_of_scroll hn hr
      omega
  · obtain ⟨ht', hr'⟩ := c.next_of_end (Nat.not_lt.mp hn)
    rw [if_neg hn, hc', ht', hr']

/-- Above the first entry comes the last one. -/
theorem entry_prev (c : ScrollCursor n size) :
    c.prev.entry = if 1 < c.entry then c.entry - 1 else n - 1 := by
  have hpos := c.row_pos
  have htwo := c.two_le
  have hc : c.entry = c.top + c.row := rfl
  have hc' : c.prev.entry = c.prev.top + c.prev.row := rfl
  by_cases hr : 1 < c.row
  · obtain ⟨ht', hr'⟩ := c.prev_of_row hr
    rw [if_pos (by omega)]
    omega
  · by_cases ht : 0 < c.top
    · obtain ⟨ht', hr'⟩ := c.prev_of_scroll (Nat.not_lt.mp hr) ht
      rw [if_pos (by omega)]
      omega
    · obtain ⟨ht', hr'⟩ := c.prev_of_end (Nat.not_lt.mp hr) (by omega)
      rw [if_neg (by omega)]
      omega

/-- A move is one step on the ring of the entries `1 … n - 1`. -/
theorem entry_move (c : ScrollCursor n size) (m : Move) :
    ((c.move m).entry : Int) = 1 + ((c.entry : Int) - 1 + net [m]) % ((n : Int) - 1) := by
  have hpos := c.entry_pos
  have hlt : c.entry < n := c.entry_lt
  cases m with
  | down =>
    show (c.next.entry : Int) = 1 + ((c.entry : Int) - 1 + 1) % ((n : Int) - 1)
    rw [entry_next]
    by_cases hn : c.entry + 1 < n
    · rw [if_pos hn, Int.emod_eq_of_lt (by omega) (by omega)]
      omega
    · have hlast : (c.entry : Int) - 1 + 1 = (n : Int) - 1 := by omega
      rw [if_neg hn, hlast, Int.emod_self]
      rfl
  | up =>
    show (c.prev.entry : Int) = 1 + ((c.entry : Int) - 1 + -1) % ((n : Int) - 1)
    rw [entry_prev]
    by_cases h1 : 1 < c.entry
    · rw [if_pos h1, Int.emod_eq_of_lt (by omega) (by omega)]
      omega
    · -- `-1` is the last residue
      have hfirst : (c.entry : Int) - 1 + -1 = -1 := by omega
      rw [if_neg h1, hfirst, ← Int.add_emod_right, Int.emod_eq_of_lt (by omega) (by omega)]
      omega

/-- **The entries form a ring** of `n - 1`, whatever is on the screen: where a walk ends depends on
    the difference of its moves down and up only. -/
theorem entry_walk (c : ScrollCursor n size) (ms : List Move) :
    ((c.walk ms).entry : Int) = 1 + ((c.entry : Int) - 1 + net ms) % ((n : Int) - 1) := by
  induction ms generalizing c with
  | nil =>
    have hpos := c.entry_pos
    have hlt : c.entry < n := c.entry_lt
    rw [walk_nil, net_nil, Int.emod_eq_of_lt (by omega) (by omega)]
    omega
  | cons m ms ih =>
    have hstep : ((c.move m).entry : Int) - 1 =
        ((c.entry : Int) - 1 + net [m]) % ((n : Int) - 1) := by
      rw [entry_move]
      omega
    rw [walk_cons, ih, hstep, Int.emod_add_emod, net_cons m ms, Int.add_assoc]

/-- A walk from the first entry ends on the last one when it comes one short of a full round. -/
theorem entry_walk_eq_last_iff (hn : 2 ≤ n) (hs : 2 ≤ size) (ms : List Move) :
    ((first hn hs).walk ms).entry = n - 1 ↔ (n : Int) - 1 ∣ net ms + 1 := by
  have hwalk := (first hn hs).entry_walk ms
  have hfirst : (((first hn hs).entry : Nat) : Int) - 1 + net ms = net ms := by
    show ((0 + 1 : Nat) : Int) - 1 + net ms = net ms
    omega
  rw [hfirst] at hwalk
  have hpos : 0 < (n : Int) - 1 := by omega
  have hnonneg := Int.emod_nonneg (net ms) (Int.ne_of_gt hpos)
  have hlt := Int.emod_lt_of_pos (net ms) hpos
  constructor
  · intro hlast
    have hmod : net ms % ((n : Int) - 1) = (n : Int) - 1 - 1 := by omega
    rw [Int.dvd_iff_emod_eq_zero, ← Int.emod_add_emod, hmod, Int.sub_add_cancel, Int.emod_self]
  · intro hdvd
    have hdvd' : (n : Int) - 1 ∣ net ms % ((n : Int) - 1) + 1 := by
      rw [Int.dvd_iff_emod_eq_zero, Int.emod_add_emod]
      exact Int.emod_eq_zero_of_dvd hdvd
    have hle := Int.le_of_dvd (by omega) hdvd'
    omega

/-- Every entry but the first can be selected. -/
theorem exists_walk (c : ScrollCursor n size) {i : Nat} (hpos : 1 ≤ i) (hi : i < n) :
    ∃ ms, (c.walk ms).entry = i := by
  -- as many moves down as there are entries up to `i`, round the end if need be
  refine ⟨List.replicate (n - 1 - c.entry + i) .down, ?_⟩
  have hlt : c.entry < n := c.entry_lt
  have hwalk := c.entry_walk (List.replicate (n - 1 - c.entry + i) .down)
  have hnet : (c.entry : Int) - 1 + net (List.replicate (n - 1 - c.entry + i) Move.down) =
      (i : Int) - 1 + ((n : Int) - 1) := by
    simp only [net, List.count_replicate_self, List.count_replicate]
    rw [if_neg (by decide)]
    omega
  rw [hnet, Int.add_emod_right, Int.emod_eq_of_lt (by omega) (by omega)] at hwalk
  omega

/-! ### The last row of the window -/

/-- The row below the last one the cursor reaches shows an entry, and so do all above it. -/
def Fills (c : ScrollCursor n size) : Prop := c.top + size < n

theorem fills_first (hn : 2 ≤ n) (hs : 2 ≤ size) (h : size < n) : (first hn hs).Fills := by
  show 0 + size < n
  omega

/-- In a window that is filled the last entry is not reached. -/
theorem Fills.entry_lt (h : c.Fills) : c.entry < n - 1 := by
  have hrow := c.row_lt
  unfold Fills at h
  unfold entry
  omega

/-- A window stays filled until the last entry is selected. -/
theorem Fills.move (h : c.Fills) {m : Move} (hlast : (c.move m).entry ≠ n - 1) :
    (c.move m).Fills := by
  have hrow := c.row_lt
  unfold Fills at h ⊢
  cases m with
  | down =>
    rw [ScrollCursor.move] at hlast ⊢
    unfold entry at hlast
    have hn : c.top + c.row + 1 < n := by omega
    rcases Nat.lt_or_ge (c.row + 1) size with hr | hr
    · obtain ⟨ht', hr'⟩ := c.next_of_row hn hr
      omega
    · obtain ⟨ht', hr'⟩ := c.next_of_scroll hn hr
      omega
  | up =>
    rw [ScrollCursor.move] at hlast ⊢
    by_cases hr : 1 < c.row
    · obtain ⟨ht', hr'⟩ := c.prev_of_row hr
      omega
    · by_cases ht : 0 < c.top
      · obtain ⟨ht', hr'⟩ := c.prev_of_scroll (Nat.not_lt.mp hr) ht
        omega
      · obtain ⟨ht', hr'⟩ := c.prev_of_end (Nat.not_lt.mp hr) (by omega)
        unfold entry at hlast
        omega

/-- Along a walk the window is filled exactly as long as the last entry is not selected. -/
theorem fills_iff (h : c.Fills) (ms : List Move) :
    (∀ ms', ms' <+: ms → (c.walk ms').Fills) ↔ ∀ ms', ms' <+: ms → (c.walk ms').entry ≠ n - 1 := by
  constructor
  · intro hf ms' hms'
    exact Nat.ne_of_lt (hf ms' hms').entry_lt
  · intro hl ms' hms'
    induction ms' using List.reverseRecOn with
    | nil => exact h
    | append_singleton ms' m ih =>
      have hprev := ih ((List.prefix_append ms' [m]).trans hms')
      have hlast := hl _ hms'
      rw [walk_concat] at hlast ⊢
      exact hprev.move hlast

end ScrollCursor

end EltexHomeworks.Lib
