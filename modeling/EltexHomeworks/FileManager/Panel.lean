import EltexHomeworks.FileManager.System

namespace EltexHomeworks.FileManager

open EltexHomeworks.Lib

/-!
# File manager — a panel and its cursor

`Panel` is `struct PmPanel` with the counters of a panel as C's `unsigned int`, what its
`name_list` and `work_dir` point at, and what `RenderingListDir` drew last.  `coordControl` is
called by both cursor keys after they moved `y` and `selected_obj` by one: it scrolls, wraps or
leaves the cursor where it is.
-/

variable {Dir : Type}

/-- One `mvwprintw` of `RenderingListDir`: the row it goes to, the entry printed and the text. -/
structure DrawnRow where
  row : Nat
  entry : Nat
  text : Str
deriving DecidableEq, Repr

/-- What `RenderingListDir` drew. -/
structure Drawing where
  /-- The value of `list_begin` it was drawn with. -/
  listBegin : UInt32
  rows : List DrawnRow
  /-- The working directory printed in `w_dir`, `none` when `getcwd` failed. -/
  header : Option Str
deriving DecidableEq, Repr

/-- `struct PmPanel`: a panel with its cursor, the part of its listing on the screen, and the
    pointers to its array of entries and to its `work_dir`. -/
structure Panel where
  /-- `getmaxy(w_half)`: the rows of the panel's window, the two of its box included. -/
  maxY : Nat
  y : UInt32
  x : UInt32
  selectedObj : UInt32
  listBegin : UInt32
  listEnd : UInt32
  dirNum : UInt32
  size : UInt32
  /-- The number of the array in `Memory.lists`; `none` before the first `scandir`. -/
  nameList : Option Nat
  workDir : StrRef
  active : Bool
  /-- The last drawing of the panel. -/
  drawn : Option Drawing

/-! ### `RenderingListDir` -/

/-- The text printed for an entry: `/name`, `name*` or `name`. -/
def entryText (e : Dirent) : Str :=
  if e.dType = DT_DIR then 47 :: e.dName
  else if e.dType = DT_EXEC then e.dName ++ [42]
  else e.dName

/-- One turn of the loop of `RenderingListDir`, with `cnt = list_begin + i`. -/
def drawRow (mem : Memory Dir) (win : Panel) (i : Nat) : Except Stop DrawnRow := do
  let e ← mem.entry win.nameList (win.listBegin.toNat + i)
  return { row := i, entry := win.listBegin.toNat + i, text := entryText e }

/-- `RenderingListDir`: every entry from `list_begin` on goes to the next row, the first to
    row 0. -/
def renderingListDir (os : Os Dir) (p : Process Dir) (win : Panel) : Except Stop Panel := do
  let rows ← (List.range (win.dirNum.toNat - win.listBegin.toNat)).mapM (drawRow p.mem win)
  return { win with
    drawn := some { listBegin := win.listBegin, rows := rows, header := os.getcwd p.cwd } }

/-- `RenderingListDir` changes nothing but the drawing, whose header is the working directory. -/
theorem renderingListDir_frame {os : Os Dir} {p : Process Dir} {win w : Panel}
    (h : renderingListDir os p win = .ok w) :
    ∃ d, w = { win with drawn := some d } ∧ d.header = os.getcwd p.cwd := by
  rw [renderingListDir, bind_eq_ok] at h
  obtain ⟨rows, _, h⟩ := h
  cases h
  exact ⟨_, rfl, rfl⟩

/-! ### `CoordControl` -/

/-- `CoordControl`: the row and the entry of the cursor are put right after a key has moved them,
    by a scroll or by a jump to the other end.  All numbers are `unsigned int`s. -/
def coordControl (os : Os Dir) (p : Process Dir) (win : Panel) : Except Stop Panel :=
  if win.dirNum > win.size then
    -- a part of the directory does not fit on the screen
    if win.y ≥ win.size then
      let win := { win with
        listBegin := win.listBegin + 1
        listEnd := win.listEnd + 1
        y := win.size - 1 }
      let win :=
        if win.selectedObj ≥ win.dirNum then
          { win with y := 1, selectedObj := 1, listBegin := 0, listEnd := win.size }
        else win
      renderingListDir os p win
    else if win.y < 1 then
      let win :=
        if win.selectedObj > 0 then
          { win with listBegin := win.listBegin - 1, listEnd := win.listEnd - 1, y := 1 }
        else
          { win with
            y := win.size - 1
            listBegin := win.dirNum - win.size
            listEnd := win.dirNum - 1
            selectedObj := win.dirNum - 1 }
      renderingListDir os p win
    else .ok win
  else
    -- the whole directory is on the screen
    if win.y < 1 then
      .ok { win with y := win.dirNum - 1, selectedObj := win.dirNum - 1 }
    else if win.y ≥ win.dirNum then
      .ok { win with y := 1, listEnd := win.dirNum, selectedObj := 1 }
    else .ok win

/-! ### The branches of `CoordControl` -/

section Branches

variable {os : Os Dir} {p : Process Dir} {win : Panel} {y o : UInt32}

/-! The comparisons of `CoordControl`, read as comparisons of numbers. -/

theorem gt_iff {a b : UInt32} : a > b ↔ b.toNat < a.toNat := UInt32.lt_iff_toNat_lt

theorem ge_iff {a b : UInt32} : a ≥ b ↔ b.toNat ≤ a.toNat := UInt32.le_iff_toNat_le

theorem gt_zero_iff {a : UInt32} : a > 0 ↔ 0 < a.toNat := by
  simp [gt_iff]

theorem lt_one_iff {a : UInt32} : a < 1 ↔ a.toNat = 0 := by
  simp [UInt32.lt_iff_toNat_lt]

/-! Each lemma is about the panel a cursor key hands over, with its new row `y` and entry `o`. -/

/-- A cursor inside the usable rows, or on an entry of a directory that fits, stays. -/
theorem coordControl_inside (hy : 1 ≤ y.toNat)
    (hs : win.size.toNat < win.dirNum.toNat → y.toNat < win.size.toNat)
    (hn : win.dirNum.toNat ≤ win.size.toNat → y.toNat < win.dirNum.toNat) :
    coordControl os p { win with y := y, selectedObj := o } =
      .ok { win with y := y, selectedObj := o } := by
  have hhigh : ¬ y < 1 := by rw [lt_one_iff]; omega
  simp only [coordControl]
  by_cases hgt : win.dirNum > win.size
  · have hlow : ¬ y ≥ win.size := by
      rw [ge_iff, Nat.not_le]
      exact hs (gt_iff.mp hgt)
    rw [if_pos hgt, if_neg hlow, if_neg hhigh]
  · have hlow : ¬ y ≥ win.dirNum := by
      rw [gt_iff, Nat.not_lt] at hgt
      rw [ge_iff, Nat.not_le]
      exact hn hgt
    rw [if_neg hgt, if_neg hhigh, if_neg hlow]

/-- Below the last usable row the window scrolls down. -/
theorem coordControl_scrollDown (hgt : win.size.toNat < win.dirNum.toNat)
    (hy : win.size.toNat ≤ y.toNat) (ho : o.toNat < win.dirNum.toNat) :
    coordControl os p { win with y := y, selectedObj := o } = renderingListDir os p { win with
      listBegin := win.listBegin + 1, listEnd := win.listEnd + 1, y := win.size - 1,
      selectedObj := o } := by
  have hin : ¬ o ≥ win.dirNum := by rw [ge_iff]; omega
  simp only [coordControl]
  rw [if_pos (gt_iff.mpr hgt), if_pos (ge_iff.mpr hy), if_neg hin]

/-- Below the last entry the window returns to the start of the directory. -/
theorem coordControl_wrapDown (hgt : win.size.toNat < win.dirNum.toNat)
    (hy : win.size.toNat ≤ y.toNat) (ho : win.dirNum.toNat ≤ o.toNat) :
    coordControl os p { win with y := y, selectedObj := o } = renderingListDir os p { win with
      listBegin := 0, listEnd := win.size, y := 1, selectedObj := 1 } := by
  simp only [coordControl]
  rw [if_pos (gt_iff.mpr hgt), if_pos (ge_iff.mpr hy), if_pos (ge_iff.mpr ho)]

/-- Above the first usable row the window scrolls up. -/
theorem coordControl_scrollUp (hgt : win.size.toNat < win.dirNum.toNat)
    (hs : 0 < win.size.toNat) (hy : y.toNat = 0) (ho : 0 < o.toNat) :
    coordControl os p { win with y := y, selectedObj := o } = renderingListDir os p { win with
      listBegin := win.listBegin - 1, listEnd := win.listEnd - 1, y := 1, selectedObj := o } := by
  have hlow : ¬ y ≥ win.size := by rw [ge_iff]; omega
  simp only [coordControl]
  rw [if_pos (gt_iff.mpr hgt), if_neg hlow, if_pos (lt_one_iff.mpr hy),
    if_pos (gt_zero_iff.mpr ho)]

/-- Above the first entry the window goes to the end of the directory. -/
theorem coordControl_wrapUp (hgt : win.size.toNat < win.dirNum.toNat)
    (hs : 0 < win.size.toNat) (hy : y.toNat = 0) (ho : o.toNat = 0) :
    coordControl os p { win with y := y, selectedObj := o } = renderingListDir os p { win with
      y := win.size - 1, listBegin := win.dirNum - win.size, listEnd := win.dirNum - 1,
      selectedObj := win.dirNum - 1 } := by
  have hlow : ¬ y ≥ win.size := by rw [ge_iff]; omega
  have hzero : ¬ o > 0 := by rw [gt_zero_iff]; omega
  simp only [coordControl]
  rw [if_pos (gt_iff.mpr hgt), if_neg hlow, if_pos (lt_one_iff.mpr hy), if_neg hzero]

/-- In a directory that fits, the cursor wraps to its last entry. -/
theorem coordControl_fitUp (hle : win.dirNum.toNat ≤ win.size.toNat) (hy : y.toNat = 0) :
    coordControl os p { win with y := y, selectedObj := o } =
      .ok { win with y := win.dirNum - 1, selectedObj := win.dirNum - 1 } := by
  have hfit : ¬ win.dirNum > win.size := by rw [gt_iff]; omega
  simp only [coordControl]
  rw [if_neg hfit, if_pos (lt_one_iff.mpr hy)]

/-- In a directory that fits, the cursor wraps to its first entry. -/
theorem coordControl_fitDown (hle : win.dirNum.toNat ≤ win.size.toNat) (hpos : 1 ≤ y.toNat)
    (hy : win.dirNum.toNat ≤ y.toNat) :
    coordControl os p { win with y := y, selectedObj := o } =
      .ok { win with y := 1, listEnd := win.dirNum, selectedObj := 1 } := by
  have hfit : ¬ win.dirNum > win.size := by rw [gt_iff]; omega
  have hhigh : ¬ y < 1 := by rw [lt_one_iff]; omega
  simp only [coordControl]
  rw [if_neg hfit, if_neg hhigh, if_pos (ge_iff.mpr hy)]

end Branches

/-- `win'` differs from `win` in the counters of the cursor and in the drawing only. -/
structure Panel.SameListing (win win' : Panel) : Prop where
  maxY : win'.maxY = win.maxY
  dirNum : win'.dirNum = win.dirNum
  size : win'.size = win.size
  nameList : win'.nameList = win.nameList
  workDir : win'.workDir = win.workDir
  active : win'.active = win.active

/-- `CoordControl` changes the counters of the cursor, and draws nothing or all anew. -/
theorem coordControl_frame {os : Os Dir} {p : Process Dir} {win w : Panel}
    (h : coordControl os p win = .ok w) :
    win.SameListing w ∧
      (w.drawn = win.drawn ∨ ∃ d, w.drawn = some d ∧ d.header = os.getcwd p.cwd) := by
  have redraw : ∀ {win₁ : Panel}, win.SameListing win₁ → renderingListDir os p win₁ = .ok w →
      win.SameListing w ∧
        (w.drawn = win.drawn ∨ ∃ d, w.drawn = some d ∧ d.header = os.getcwd p.cwd) := by
    intro win₁ hsame hw
    obtain ⟨d, rfl, hd⟩ := renderingListDir_frame hw
    exact ⟨⟨hsame.1, hsame.2, hsame.3, hsame.4, hsame.5, hsame.6⟩, Or.inr ⟨d, rfl, hd⟩⟩
  unfold coordControl at h
  split at h
  · split at h
    -- below the last row, scrolled or wrapped
    · refine redraw ?_ h
      split <;> exact ⟨rfl, rfl, rfl, rfl, rfl, rfl⟩
    · split at h
      -- above the first row, scrolled or wrapped
      · refine redraw ?_ h
        split <;> exact ⟨rfl, rfl, rfl, rfl, rfl, rfl⟩
      · cases h
        exact ⟨⟨rfl, rfl, rfl, rfl, rfl, rfl⟩, Or.inl rfl⟩
  -- in a directory that fits nothing is drawn
  · split at h
    · cases h
      exact ⟨⟨rfl, rfl, rfl, rfl, rfl, rfl⟩, Or.inl rfl⟩
    · split at h
      all_goals
        cases h
        exact ⟨⟨rfl, rfl, rfl, rfl, rfl, rfl⟩, Or.inl rfl⟩

/-! ### The cursor keys, for the active panel -/

/-- The `KEY_UP` handler of one panel; the type of the selected entry chooses the colour in
    which its row is left. -/
def keyUp (os : Os Dir) (p : Process Dir) (win : Panel) : Except Stop Panel := do
  let _ ← p.mem.entry win.nameList win.selectedObj.toNat
  coordControl os p { win with y := win.y - 1, selectedObj := win.selectedObj - 1 }

/-- The `KEY_DOWN` handler of one panel. -/
def keyDown (os : Os Dir) (p : Process Dir) (win : Panel) : Except Stop Panel := do
  let _ ← p.mem.entry win.nameList win.selectedObj.toNat
  coordControl os p { win with y := win.y + 1, selectedObj := win.selectedObj + 1 }

/-- A cursor key hands the panel to `CoordControl`, with a new row and entry. -/
theorem exists_coordControl {os : Os Dir} {p : Process Dir} {win w : Panel}
    {move : Process Dir → Panel → Except Stop Panel} (hmove : move = keyUp os ∨ move = keyDown os)
    (h : move p win = .ok w) :
    ∃ y o, coordControl os p { win with y := y, selectedObj := o } = .ok w := by
  rcases hmove with rfl | rfl
  · unfold keyUp at h
    obtain ⟨_, _, h⟩ := bind_eq_ok.mp h
    exact ⟨_, _, h⟩
  · unfold keyDown at h
    obtain ⟨_, _, h⟩ := bind_eq_ok.mp h
    exact ⟨_, _, h⟩

/-- The cursor keys change what `CoordControl` does. -/
theorem move_frame {os : Os Dir} {p : Process Dir} {win w : Panel}
    {move : Process Dir → Panel → Except Stop Panel} (hmove : move = keyUp os ∨ move = keyDown os)
    (h : move p win = .ok w) :
    win.SameListing w ∧
      (w.drawn = win.drawn ∨ ∃ d, w.drawn = some d ∧ d.header = os.getcwd p.cwd) := by
  obtain ⟨y, o, h⟩ := exists_coordControl hmove h
  obtain ⟨hs, hd⟩ := coordControl_frame h
  exact ⟨⟨hs.1, hs.2, hs.3, hs.4, hs.5, hs.6⟩, hd⟩

end EltexHomeworks.FileManager
