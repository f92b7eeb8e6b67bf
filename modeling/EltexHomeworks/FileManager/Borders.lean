import Mathlib.Data.UInt
import EltexHomeworks.FileManager.CursorRing

namespace EltexHomeworks.FileManager

open EltexHomeworks.Lib
open EltexHomeworks.Lib.ScrollCursor (Move net)

/-!
# File manager — the borders of the viewport

`list_end` follows `list_begin` through three of the four branches of `CoordControl` that move the
window; the branch that wraps to the last entry sets it one lower, with the last usable row left
blank.  Scrolling down to the last entry leaves that row blank too, with `list_end` behind the
directory.  `borders_iff` says which keys keep the borders as `ListDir` set them.
-/

variable {Dir : Type} {n size : Nat}

/-- `list_end` is the entry drawn in the last usable row, row `size`, and no usable row is blank. -/
structure Panel.Borders (win : Panel) : Prop where
  listEnd : win.listEnd.toNat = win.listBegin.toNat + win.size.toNat
  listEnd_lt : win.listEnd.toNat < win.dirNum.toNat
  drawn : ∃ d, win.drawn = some d ∧
    (∃ r ∈ d.rows, r.row = win.size.toNat ∧ r.entry = win.listEnd.toNat) ∧
    ∀ i, 1 ≤ i → i ≤ win.size.toNat → ∃ r ∈ d.rows, r.row = i

/-- `CoordControl` moves both borders alike, or sets both: a window apart at the first entry, one
    less at the last. -/
theorem coordControl_listEnd {os : Os Dir} {p : Process Dir} {win w : Panel} {lag : UInt32}
    (h : coordControl os p win = .ok w) (hgt : win.dirNum > win.size)
    (hend : win.listEnd + lag = win.listBegin + win.size) :
    w.listEnd + lag = w.listBegin + w.size ∨ w.listEnd = w.listBegin + w.size ∨
      w.listEnd + 1 = w.listBegin + w.size ∧ w.selectedObj = w.dirNum - 1 := by
  rw [coordControl, if_pos hgt] at h
  dsimp only at h
  split at h
  · split at h
    -- wrapped to the first entry
    · obtain ⟨d, rfl, _⟩ := renderingListDir_frame h
      exact .inr (.inl (zero_add win.size).symm)
    -- scrolled down
    · obtain ⟨d, rfl, _⟩ := renderingListDir_frame h
      left
      show win.listEnd + 1 + lag = win.listBegin + 1 + win.size
      rw [add_right_comm, hend, add_right_comm]
  · split at h
    · split at h
      -- scrolled up
      · obtain ⟨d, rfl, _⟩ := renderingListDir_frame h
        left
        show win.listEnd - 1 + lag = win.listBegin - 1 + win.size
        rw [sub_add_eq_add_sub, hend, sub_add_eq_add_sub]
      -- wrapped to the last entry
      · obtain ⟨d, rfl, _⟩ := renderingListDir_frame h
        refine .inr (.inr ⟨?_, rfl⟩)
        show win.dirNum - 1 + 1 = win.dirNum - win.size + win.size
        rw [sub_add_cancel, sub_add_cancel]
    · cases h
      exact .inl hend

/-- The same for the cursor keys. -/
theorem move_listEnd (lag : UInt32) {os : Os Dir} {p : Process Dir} {win w : Panel}
    {move : Process Dir → Panel → Except Stop Panel} (hmove : move = keyUp os ∨ move = keyDown os)
    (h : move p win = .ok w) (hgt : win.dirNum > win.size)
    (hend : win.listEnd + lag = win.listBegin + win.size) :
    w.listEnd + lag = w.listBegin + w.size ∨ w.listEnd = w.listBegin + w.size ∨
      w.listEnd + 1 = w.listBegin + w.size ∧ w.selectedObj = w.dirNum - 1 := by
  obtain ⟨y, o, h⟩ := exists_coordControl hmove h
  exact coordControl_listEnd h hgt hend

/-! ### The borders of a scrolled panel -/

namespace State

/-- The cursor is on `c`, and `list_end` is a window below `list_begin`. -/
structure Bordered (s : State Dir) (c : ScrollCursor n size) : Prop where
  onCursor : s.OnCursor c
  listEnd : (s.win s.side).listEnd = (s.win s.side).listBegin + (s.win s.side).size

/-- The borders fit as long as the window is filled. -/
theorem Bordered.borders {s : State Dir} {c : ScrollCursor n size} (h : s.Bordered c)
    (hfills : c.Fills) : (s.win s.side).Borders := by
  obtain ⟨⟨⟨hn, hs, hb, _, _⟩, _, d, hd, _, hrows⟩, hend⟩ := h
  have hn32 := (s.win s.side).dirNum.toNat_lt
  unfold ScrollCursor.Fills at hfills
  have hlast : (s.win s.side).listEnd.toNat =
      (s.win s.side).listBegin.toNat + (s.win s.side).size.toNat := by
    rw [hend, UInt32.toNat_add]
    exact Nat.mod_eq_of_lt (by omega)
  refine ⟨hlast, by omega, d, hd, ?_, fun i _ hi => ?_⟩
  · obtain ⟨r, hr, hrow, hentry⟩ := hrows (s.win s.side).size.toNat (by omega)
    exact ⟨r, hr, hrow, hentry.trans hlast.symm⟩
  · obtain ⟨r, hr, hrow, _⟩ := hrows i (by omega)
    exact ⟨r, hr, hrow⟩

/-- Where the borders fit the window is filled. -/
theorem OnCursor.fills {s : State Dir} {c : ScrollCursor n size} (h : s.OnCursor c)
    (hb : (s.win s.side).Borders) : c.Fills := by
  obtain ⟨⟨hn, hs, hbegin, _, _⟩, _, _⟩ := h
  have hend := hb.listEnd
  have hlt := hb.listEnd_lt
  unfold ScrollCursor.Fills
  omega

/-- A key that does not select the last entry keeps `list_end`. -/
theorem Bordered.handleKey (os : Os Dir) {s : State Dir} {c : ScrollCursor n size}
    (h : s.Bordered c) (hgt : size < n) {m : Move} (hlast : (c.move m).entry ≠ n - 1) :
    ∃ t, FileManager.handleKey os s (cursorKey m) = .ok t ∧ t.Bordered (c.move m) := by
  obtain ⟨t, ht, htc, hside, _⟩ := h.onCursor.handleKey os m
  refine ⟨t, ht, htc, ?_⟩
  have hgt' : (s.win s.side).dirNum > (s.win s.side).size := by
    rw [gt_iff, h.onCursor.counters.dirNum, h.onCursor.counters.size]
    exact hgt
  have hmove : ∃ move w, (move = keyUp os ∨ move = keyDown os) ∧
      move s.proc (s.win s.side) = .ok w ∧ t = s.update s.side w s.proc := by
    cases m with
    | up =>
      obtain ⟨w, hw, ht⟩ := moveCursor_cases ht
      exact ⟨_, w, Or.inl rfl, hw, ht⟩
    | down =>
      obtain ⟨w, hw, ht⟩ := moveCursor_cases ht
      exact ⟨_, w, Or.inr rfl, hw, ht⟩
  obtain ⟨move, w, hmove, hw, rfl⟩ := hmove
  have hwin : (s.update s.side w s.proc).win (s.update s.side w s.proc).side = w := by
    rw [hside, State.win_update_self]
  rw [hwin]
  obtain hend | hend | ⟨_, hsel⟩ := move_listEnd 0 hmove hw hgt'
    ((add_zero _).trans h.listEnd)
  · exact (add_zero _).symm.trans hend
  · exact hend
  · -- the last entry is `dir_num - 1`
    have htwo := c.two_le
    have hone : (1 : UInt32).toNat = 1 := rfl
    have hn := htc.counters.dirNum
    have hentry := htc.counters.selectedObj
    rw [hwin] at hn hentry
    rw [hsel, toNat_diff (by omega), hn, hone] at hentry
    exact absurd hentry.symm hlast

end State

/-- As long as no key selects the last entry, the borders fit. -/
theorem press_bordered {s : State Dir} {c : ScrollCursor n size} (h : s.Bordered c) (hgt : size < n)
    (ms : List (Move × Os Dir))
    (hlast : ∀ ms', ms' <+: ms → (c.walk (ms'.map Prod.fst)).entry ≠ n - 1) :
    ∃ t, s.press ms = .ok t ∧ t.Bordered (c.walk (ms.map Prod.fst)) := by
  induction ms generalizing s c with
  | nil => exact ⟨s, rfl, h⟩
  | cons m ms ih =>
    obtain ⟨t, ht, htc⟩ := h.handleKey m.2 hgt (hlast [m] (List.prefix_append [m] ms))
    obtain ⟨u, hu, huc⟩ := ih htc fun ms' hms' =>
      hlast (m :: ms') (List.cons_prefix_cons.mpr ⟨rfl, hms'⟩)
    refine ⟨u, ?_, huc⟩
    rw [State.press_cons, ht]
    exact hu

/-- **The borders of the viewport** fit after every key exactly when no key selects the last entry
    of the directory, that is, when at no time the number of `KEY_DOWN` less that of `KEY_UP` is one
    short of a multiple of `dir_num - 1`. -/
theorem borders_iff {s : State Dir} (h : s.Fresh) (hs : 2 ≤ (s.win s.side).size.toNat)
    (hgt : (s.win s.side).size.toNat < (s.win s.side).dirNum.toNat) (ms : List (Move × Os Dir)) :
    (∀ ms', ms' <+: ms → ∃ t, s.press ms' = .ok t ∧ (t.win t.side).Borders) ↔
      ∀ ms', ms' <+: ms →
        ¬ ((s.win s.side).dirNum.toNat : Int) - 1 ∣ net (ms'.map Prod.fst) + 1 := by
  have hn : 2 ≤ (s.win s.side).dirNum.toNat := by omega
  have hfirst : s.Bordered (ScrollCursor.first hn hs) := by
    obtain ⟨_, _, hb, he, _⟩ := h.rewound
    exact ⟨h.onCursor hn hs, by rw [he, hb, zero_add]⟩
  have hlast : ∀ ms' : List (Move × Os Dir),
      ((ScrollCursor.first hn hs).walk (ms'.map Prod.fst)).entry = (s.win s.side).dirNum.toNat - 1 ↔
        ((s.win s.side).dirNum.toNat : Int) - 1 ∣ net (ms'.map Prod.fst) + 1 :=
    fun ms' => ScrollCursor.entry_walk_eq_last_iff hn hs _
  constructor
  · -- with the borders right all rows are filled, and the cursor is not at the last entry
    intro hborders ms' hms'
    obtain ⟨t, ht, htb⟩ := hborders ms' hms'
    obtain ⟨u, hu, huc⟩ := press_walk hfirst.onCursor ms'
    rw [ht] at hu
    cases hu
    rw [← hlast]
    exact Nat.ne_of_lt (huc.fills htb).entry_lt
  · -- no key selects the last entry, so that every row stays filled
    intro hkeys ms' hms'
    have hne : ∀ ms'', ms'' <+: ms' → ((ScrollCursor.first hn hs).walk (ms''.map Prod.fst)).entry ≠
        (s.win s.side).dirNum.toNat - 1 := fun ms'' h' => by
      rw [ne_eq, hlast]
      exact hkeys ms'' (h'.trans hms')
    obtain ⟨t, ht, htb⟩ := press_bordered hfirst hgt ms' hne
    refine ⟨t, ht, htb.borders ?_⟩
    refine (ScrollCursor.fills_iff (ScrollCursor.fills_first hn hs hgt) _).mpr ?_ _ List.prefix_rfl
    intro ks hks
    obtain ⟨ms'', h', rfl⟩ := List.prefix_map_iff.mp hks
    exact hne ms'' h'

/-- A system whose only directory has the entries `.`, `..`, `a` and `b`. -/
def pairDir : Os Unit :=
  { singleDir with
    readdir := fun _ => ⟨[⟨[46], 0⟩, ⟨[46, 46], 0⟩, ⟨[97], 0⟩, ⟨[98], 0⟩], by decide⟩ }

/-- The program is started in it on a terminal of five lines, so that two rows are usable. -/
def fiveLines : Boot Unit := { singleBoot with maxY := 5, maxY_lt := by decide }

/-- One `KEY_DOWN` scrolls by one, and the borders fit. -/
theorem borders_after_down :
    ∃ s t, start pairDir pairDir fiveLines = .ok s ∧ s.press [(.down, pairDir)] = .ok t ∧
      (t.win t.side).listBegin = 1 ∧ (t.win t.side).Borders := by
  have hstart : ∃ s, start pairDir pairDir fiveLines = .ok s ∧ (s.win s.side).dirNum.toNat = 4 ∧
      (s.win s.side).size.toNat = 2 ∧ ∃ t, s.press [(.down, pairDir)] = .ok t ∧
        (t.win t.side).listBegin = 1 := ⟨_, rfl, rfl, rfl, _, rfl, rfl⟩
  obtain ⟨s, hs, hn, hsize, t, ht, hb⟩ := hstart
  have hborders := borders_iff (start_fresh hs) (by omega) (by omega) [(.down, pairDir)]
  rw [hn] at hborders
  obtain ⟨u, hu, hub⟩ := hborders.mpr (fun ms' hms' => by
    rcases List.prefix_cons_iff.mp hms' with rfl | ⟨ms'', rfl, h⟩
    · decide
    · rw [List.prefix_nil] at h
      subst h
      decide) _ List.prefix_rfl
  rw [ht] at hu
  cases hu
  exact ⟨s, t, hs, ht, hb, hub⟩

/-- One `KEY_UP` wraps to the last entry: `list_end` is one less than it should be. -/
theorem not_borders :
    ¬ ∀ (Dir : Type) (s : State Dir), s.Fresh → 2 ≤ (s.win s.side).size.toNat →
      (s.win s.side).size.toNat < (s.win s.side).dirNum.toNat →
      ∀ ms, ∃ t, s.press ms = .ok t ∧ (t.win t.side).Borders := by
  intro h
  have hstart : ∃ s, start pairDir pairDir fiveLines = .ok s ∧ (s.win s.side).dirNum.toNat = 4 ∧
      (s.win s.side).size.toNat = 2 ∧ ∃ t, s.press [(.up, pairDir)] = .ok t ∧
        (t.win t.side).listBegin = 2 ∧ (t.win t.side).listEnd = 3 ∧ (t.win t.side).size = 2 :=
    ⟨_, rfl, rfl, rfl, _, rfl, rfl, rfl, rfl⟩
  obtain ⟨s, hs, hn, hsize, t, ht, hb, he, hsize'⟩ := hstart
  obtain ⟨u, hu, hborders⟩ := h Unit s (start_fresh hs) (by omega) (by omega) [(.up, pairDir)]
  rw [ht] at hu
  cases hu
  have hend := hborders.listEnd
  rw [hb, he, hsize'] at hend
  exact absurd hend (by decide)

end EltexHomeworks.FileManager
