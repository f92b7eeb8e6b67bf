import EltexHomeworks.FileManager.Panel
import EltexHomeworks.Lib.ScrollCursor

namespace EltexHomeworks.FileManager

open EltexHomeworks.Lib

/-!
# File manager — the cursor keys refine a scroll cursor

A panel whose counters are those of a `ScrollCursor` (`Panel.At`), whose listing is in memory
(`Panel.Listed`) and whose drawing is up to date (`Panel.Drawn`) is in order.  The two cursor keys
keep a panel in order and move its cursor by `ScrollCursor.next` and `ScrollCursor.prev`; none of
the `unsigned int` operations of `CoordControl` wraps on the way.
-/

variable {Dir : Type} {n size : Nat}

/-- The counters of the panel are those of the cursor `c`. -/
structure Panel.At (win : Panel) (c : ScrollCursor n size) : Prop where
  dirNum : win.dirNum.toNat = n
  size : win.size.toNat = size
  listBegin : win.listBegin.toNat = c.top
  y : win.y.toNat = c.row
  selectedObj : win.selectedObj.toNat = c.entry

/-- The listing of the panel is in memory and has `dir_num` entries. -/
def Panel.Listed (win : Panel) (mem : Memory Dir) : Prop :=
  ∃ l, mem.list win.nameList = .ok l ∧ l.entries.length = win.dirNum.toNat

/-- The last drawing of the panel was made with its present `list_begin`, and put every entry from
    there on in its row. -/
def Panel.Drawn (win : Panel) : Prop :=
  ∃ d, win.drawn = some d ∧ d.listBegin = win.listBegin ∧
    ∀ i, win.listBegin.toNat + i < win.dirNum.toNat →
      ∃ r ∈ d.rows, r.row = i ∧ r.entry = win.listBegin.toNat + i

/-! ### Reading the listing -/

/-- Every entry of a listing in memory can be read. -/
theorem Panel.Listed.entry {win : Panel} {mem : Memory Dir} (h : win.Listed mem) {i : Nat}
    (hi : i < win.dirNum.toNat) : ∃ e, mem.entry win.nameList i = .ok e := by
  obtain ⟨l, hl, hlen⟩ := h
  have hi' : i < l.entries.length := by omega
  refine ⟨l.entries[i], ?_⟩
  rw [Memory.entry, hl]
  show orUndefined l.entries[i]? = _
  rw [List.getElem?_eq_getElem hi', orUndefined]

/-- What happens to other arrays in memory does not matter to a listing. -/
theorem Panel.Listed.mono {win : Panel} {mem mem' : Memory Dir} (h : win.Listed mem)
    (hk : mem.Keeps mem') : win.Listed mem' := by
  obtain ⟨l, hl, hlen⟩ := h
  unfold Panel.Listed
  cases hid : win.nameList with
  | none => rw [hid, Memory.list_none] at hl; cases hl
  | some id =>
    rw [hid, Memory.list_some_eq_ok] at hl
    obtain ⟨l', hl', _, hlen'⟩ := hk id l hl
    exact ⟨l', Memory.list_some_eq_ok.mpr hl', hlen'.trans hlen⟩

/-- A loop whose every turn succeeds gives the list of their results. -/
theorem mapM_eq_ok {ε α β : Type} {f : α → Except ε β} (xs : List α)
    (h : ∀ x ∈ xs, ∃ y, f x = .ok y) :
    ∃ ys, xs.mapM f = .ok ys ∧ ∀ x ∈ xs, ∃ y ∈ ys, f x = .ok y := by
  induction xs with
  | nil => exact ⟨[], rfl, by simp⟩
  | cons x xs ih =>
    obtain ⟨y, hy⟩ := h x (by simp)
    obtain ⟨ys, hys, hmem⟩ := ih fun x' hx' => h x' (by simp [hx'])
    refine ⟨y :: ys, ?_, ?_⟩
    · rw [List.mapM_cons, hy, hys]; rfl
    · intro x' hx'
      rcases List.mem_cons.mp hx' with rfl | hx'
      · exact ⟨y, by simp, hy⟩
      · obtain ⟨y', hy', hf⟩ := hmem x' hx'
        exact ⟨y', by simp [hy'], hf⟩

/-- `RenderingListDir` on a listing in memory changes nothing but the drawing, which is then up
    to date. -/
theorem renderingListDir_spec (os : Os Dir) (p : Process Dir) (win : Panel)
    (h : win.Listed p.mem) :
    ∃ d, renderingListDir os p win = .ok { win with drawn := some d } ∧
      d.header = os.getcwd p.cwd ∧ ({ win with drawn := some d } : Panel).Drawn := by
  have hrow : ∀ i ∈ List.range (win.dirNum.toNat - win.listBegin.toNat),
      ∃ r, drawRow p.mem win i = .ok r := by
    intro i hi
    rw [List.mem_range] at hi
    obtain ⟨e, he⟩ := h.entry (i := win.listBegin.toNat + i) (by omega)
    exact ⟨_, by rw [drawRow, he]; rfl⟩
  obtain ⟨rows, hrows, hmem⟩ := mapM_eq_ok _ hrow
  refine ⟨⟨win.listBegin, rows, os.getcwd p.cwd⟩, ?_, rfl, ⟨_, rfl, rfl, ?_⟩⟩
  · rw [renderingListDir, hrows]; rfl
  · intro i hi
    obtain ⟨r, hr, hdraw⟩ := hmem i (List.mem_range.mpr (by simp only at hi; omega))
    refine ⟨r, hr, ?_⟩
    rw [drawRow, bind_eq_ok] at hdraw
    obtain ⟨e, _, he⟩ := hdraw
    cases he
    exact ⟨rfl, rfl⟩

/-! ### Panels with the same listing -/

theorem Panel.SameListing.listed {win win' : Panel} {mem : Memory Dir}
    (h : win.SameListing win') (hl : win.Listed mem) : win'.Listed mem := by
  unfold Panel.Listed
  rw [h.nameList, h.dirNum]
  exact hl

/-- A panel whose counters changed as `CoordControl` does without a redraw is drawn as before. -/
theorem Panel.Drawn.of_eq {win win' : Panel} (h : win.Drawn) (hd : win'.drawn = win.drawn)
    (hb : win'.listBegin = win.listBegin) (hn : win'.dirNum = win.dirNum) : win'.Drawn := by
  unfold Panel.Drawn
  rw [hd, hb, hn]
  exact h

/-! ### The cursor keys -/

section Arithmetic

variable {a b : UInt32}

/-- An `unsigned int` increment that does not wrap. -/
theorem toNat_incr (h : a.toNat + 1 < 2 ^ 32) : (a + 1).toNat = a.toNat + 1 := by
  rw [UInt32.toNat_add]
  exact Nat.mod_eq_of_lt h

/-- An `unsigned int` difference that does not wrap. -/
theorem toNat_diff (h : b.toNat ≤ a.toNat) : (a - b).toNat = a.toNat - b.toNat :=
  UInt32.toNat_sub_of_le a b (UInt32.le_iff_toNat_le.mpr h)

/-- An `int` stored in an `unsigned int`. -/
theorem toNat_ofNat {k : Nat} (h : k < 2 ^ 32) : (UInt32.ofNat k).toNat = k :=
  UInt32.toNat_ofNat_of_lt' h

end Arithmetic

/-- What a cursor key does to a panel in order: it succeeds, moves the cursor to `c'`, and
    leaves the panel in order. -/
def MovesTo (result : Except Stop Panel) (win : Panel) (c' : ScrollCursor n size) : Prop :=
  ∃ win', result = .ok win' ∧ win.SameListing win' ∧ win'.At c' ∧ win'.Drawn

/-- A move that redraws the panel. -/
theorem MovesTo.of_redraw (os : Os Dir) {p : Process Dir} {win win₁ : Panel}
    {c' : ScrollCursor n size} (hl : win.Listed p.mem) (hsame : win.SameListing win₁)
    (hc : win₁.At c') : MovesTo (renderingListDir os p win₁) win c' := by
  obtain ⟨d, hd, _, hdrawn⟩ := renderingListDir_spec os p win₁ (hsame.listed hl)
  exact ⟨_, hd, ⟨hsame.1, hsame.2, hsame.3, hsame.4, hsame.5, hsame.6⟩,
    ⟨hc.1, hc.2, hc.3, hc.4, hc.5⟩, hdrawn⟩

/-- A move within the rows on the screen. -/
theorem MovesTo.of_still {win win' : Panel} {c' : ScrollCursor n size} (hd : win.Drawn)
    (hsame : win.SameListing win') (hdraw : win'.drawn = win.drawn)
    (hbegin : win'.listBegin = win.listBegin) (hc : win'.At c') : MovesTo (.ok win') win c' :=
  ⟨win', rfl, hsame, hc, hd.of_eq hdraw hbegin hsame.dirNum⟩

/-- **`KEY_DOWN` is `next`.**  The handler counts up row and entry, and `CoordControl` scrolls by
    one, or goes back to the beginning. -/
theorem keyDown_movesTo (os : Os Dir) {p : Process Dir} {win : Panel} {c : ScrollCursor n size}
    (hc : win.At c) (hl : win.Listed p.mem) (hd : win.Drawn) :
    MovesTo (keyDown os p win) win c.next := by
  obtain ⟨hn, hs, hb, hy, ho⟩ := hc
  have hrow := c.row_pos
  have hrow' := c.row_lt
  have hent := c.entry_lt
  have htop := c.top_eq
  have htop' := c.top_le
  have hn32 := win.dirNum.toNat_lt
  have hs32 := win.size.toNat_lt
  unfold ScrollCursor.entry at ho
  obtain ⟨e, he⟩ := hl.entry (i := win.selectedObj.toNat) (by omega)
  have hy1 : (win.y + 1).toNat = c.row + 1 := by rw [toNat_incr (by omega), hy]
  have ho1 : (win.selectedObj + 1).toNat = c.top + c.row + 1 := by
    rw [toNat_incr (by omega), ho]
  have hone : (1 : UInt32).toNat = 1 := rfl
  have hsame : ∀ y o b e, win.SameListing
      { win with y := y, selectedObj := o, listBegin := b, listEnd := e } :=
    fun _ _ _ _ => ⟨rfl, rfl, rfl, rfl, rfl, rfl⟩
  rw [keyDown, he]
  show MovesTo (coordControl os p _) win c.next
  rcases Nat.lt_or_ge size n with hfit | hfit
  · -- the directory does not fit: past the last usable row it scrolls or wraps
    by_cases hr : c.row + 1 < size
    · obtain ⟨ht', hr'⟩ := c.next_of_row (by omega) hr
      rw [coordControl_inside (by omega) (by omega) (by omega)]
      refine .of_still hd (hsame ..) rfl rfl ⟨hn, hs, ?_, ?_, ?_⟩
      · rw [ht']; exact hb
      · rw [hr']; exact hy1
      · rw [ScrollCursor.entry, ht', hr']; exact ho1
    · by_cases hlast : c.top + c.row + 1 < n
      · obtain ⟨ht', hr'⟩ := c.next_of_scroll hlast (by omega)
        rw [coordControl_scrollDown (by omega) (by omega) (by omega)]
        refine .of_redraw os hl (hsame ..) ⟨hn, hs, ?_, ?_, ?_⟩
        · show (win.listBegin + 1).toNat = _
          rw [toNat_incr (by omega), hb, ht']
        · show (win.size - 1).toNat = _
          rw [toNat_diff (by omega), hs, hone, hr']
          omega
        · show (win.selectedObj + 1).toNat = _
          rw [ho1, ScrollCursor.entry, ht', hr']
          omega
      · obtain ⟨ht', hr'⟩ := c.next_of_end (by omega)
        rw [coordControl_wrapDown (by omega) (by omega) (by omega)]
        refine .of_redraw os hl (hsame ..) ⟨hn, hs, ?_, ?_, ?_⟩
        · rw [ht']; rfl
        · rw [hr']; rfl
        · rw [ScrollCursor.entry, ht', hr']; rfl
  · -- the whole directory is on the screen: past the last entry the cursor wraps
    have ht := htop hfit
    by_cases hlast : c.top + c.row + 1 < n
    · obtain ⟨ht', hr'⟩ := c.next_of_row hlast (by omega)
      rw [coordControl_inside (by omega) (by omega) (by omega)]
      refine .of_still hd (hsame ..) rfl rfl ⟨hn, hs, ?_, ?_, ?_⟩
      · rw [ht']; exact hb
      · rw [hr']; exact hy1
      · rw [ScrollCursor.entry, ht', hr']; exact ho1
    · obtain ⟨ht', hr'⟩ := c.next_of_end (by omega)
      rw [coordControl_fitDown (by omega) (by omega) (by omega)]
      refine .of_still hd (hsame ..) rfl rfl ⟨hn, hs, ?_, ?_, ?_⟩
      · rw [ht', ← ht]; exact hb
      · rw [hr']; rfl
      · rw [ScrollCursor.entry, ht', hr']; rfl

/-- **`KEY_UP` is `prev`.**  The handler counts down row and entry, and `CoordControl` scrolls by
    one, or goes to the end. -/
theorem keyUp_movesTo (os : Os Dir) {p : Process Dir} {win : Panel} {c : ScrollCursor n size}
    (hc : win.At c) (hl : win.Listed p.mem) (hd : win.Drawn) :
    MovesTo (keyUp os p win) win c.prev := by
  obtain ⟨hn, hs, hb, hy, ho⟩ := hc
  have hrow := c.row_pos
  have hrow' := c.row_lt
  have hent := c.entry_lt
  have htop := c.top_eq
  have htop' := c.top_le
  unfold ScrollCursor.entry at ho
  obtain ⟨e, he⟩ := hl.entry (i := win.selectedObj.toNat) (by omega)
  have hone : (1 : UInt32).toNat = 1 := rfl
  have hy1 : (win.y - 1).toNat = c.row - 1 := by
    rw [toNat_diff (by omega), hy, hone]
  have ho1 : (win.selectedObj - 1).toNat = c.top + c.row - 1 := by
    rw [toNat_diff (by omega), ho, hone]
  have hlastObj : (win.dirNum - 1).toNat = n - 1 := by
    rw [toNat_diff (by omega), hn, hone]
  have hsame : ∀ y o b e, win.SameListing
      { win with y := y, selectedObj := o, listBegin := b, listEnd := e } :=
    fun _ _ _ _ => ⟨rfl, rfl, rfl, rfl, rfl, rfl⟩
  rw [keyUp, he]
  show MovesTo (coordControl os p _) win c.prev
  by_cases hr : 1 < c.row
  · -- not in the first row: the screen stands still
    obtain ⟨ht', hr'⟩ := c.prev_of_row hr
    rw [coordControl_inside (by omega) (by omega) (by omega)]
    refine .of_still hd (hsame ..) rfl rfl ⟨hn, hs, ?_, ?_, ?_⟩
    · rw [ht']; exact hb
    · rw [hr']; exact hy1
    · rw [ScrollCursor.entry, ht', hr']; simp only; omega
  · -- in the first row `y` becomes 0, which is what `CoordControl` tests for
    rcases Nat.lt_or_ge size n with hfit | hfit
    · -- the directory does not fit: from its first entry the cursor wraps, else it scrolls
      by_cases ht : 0 < c.top
      · obtain ⟨ht', hr'⟩ := c.prev_of_scroll (by omega) ht
        rw [coordControl_scrollUp (by omega) (by omega) (by omega) (by omega)]
        refine .of_redraw os hl (hsame ..) ⟨hn, hs, ?_, ?_, ?_⟩
        · show (win.listBegin - 1).toNat = _
          rw [toNat_diff (by omega), hb, hone, ht']
        · show (1 : UInt32).toNat = _
          omega
        · show (win.selectedObj - 1).toNat = _
          rw [ho1, ScrollCursor.entry, ht', hr']
          omega
      · obtain ⟨ht', hr'⟩ := c.prev_of_end (by omega) (by omega)
        rw [coordControl_wrapUp (by omega) (by omega) (by omega) (by omega)]
        refine .of_redraw os hl (hsame ..) ⟨hn, hs, ?_, ?_, ?_⟩
        · show (win.dirNum - win.size).toNat = _
          rw [toNat_diff (by omega), hn, hs, ht']
        · show (win.size - 1).toNat = _
          rw [toNat_diff (by omega), hs, hone, hr']
          omega
        · show (win.dirNum - 1).toNat = _
          rw [hlastObj, ScrollCursor.entry, ht', hr']
          omega
    · -- the whole directory is on the screen, so the first row is its first entry
      have ht := htop hfit
      obtain ⟨ht', hr'⟩ := c.prev_of_end (by omega) ht
      rw [coordControl_fitUp (by omega) (by omega)]
      refine .of_still hd (hsame ..) rfl rfl ⟨hn, hs, ?_, ?_, ?_⟩
      · rw [ht']; simp only; omega
      · rw [hr']; simp only; omega
      · rw [ScrollCursor.entry, ht', hr']; simp only; omega

end EltexHomeworks.FileManager
