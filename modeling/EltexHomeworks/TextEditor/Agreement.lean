import EltexHomeworks.Lib.RowMajor
import EltexHomeworks.TextEditor.Editor

namespace EltexHomeworks.TextEditor

open EltexHomeworks.Lib

/-!
# Text editor — agreement of the screen and `read_buf`

The cell in row `y` and column `x` belongs to the byte `y*max_x + x` of `read_buf`; the editor stores
at `y*max_y + x`.  The two are the same in the first row and on a square screen only.  In addition
`KEY_BACKSPACE` in the first column moves a whole row of the screen and blanks one byte.

`agreement_iff` says exactly which keys keep the agreement.
-/

variable {maxY maxX : Nat} {s t : Editor maxY maxX}
  {draw : Nat → Window maxY maxX → Window maxY maxX}

namespace Editor

/-- The text `SafeFile` would write, laid out in rows of `maxX` characters, is the text on the
    screen. -/
def Agrees (s : Editor maxY maxX) : Prop :=
  ∀ (y : Fin maxY) (x : Fin maxX),
    (text s.readBuf.bytes)[rowMajor maxX y x]? = some (s.win.cells y x)

/-- Only the byte of the cell under the cursor may have changed. -/
def KeepsOthers (s t : Editor maxY maxX) : Prop :=
  ∀ (y : Fin maxY) (x : Fin maxX), ¬ (y = s.win.y ∧ x = s.win.x) →
    t.readBuf.bytes[rowMajor maxX y x]? = s.readBuf.bytes[rowMajor maxX y x]?

/-- The keys of an editing session: printable characters and `KEY_BACKSPACE` in insert mode, the
    cursor keys in command mode, and the two keys between the modes. -/
def Covered (s : Editor maxY maxX) (key : Nat) : Prop :=
  match s.mode with
  | .command => key = KEY_UP ∨ key = KEY_DOWN ∨ key = KEY_RIGHT ∨ key = KEY_LEFT ∨ key = 'i'.toNat
  | .insert => Printable key ∨ key = KEY_BACKSPACE ∨ key = ESC
  | .help => False
  | .closed => False

/-- The key is handled inside `read_buf`, changes no byte of another cell, and leaves screen and
    text in agreement. -/
def Kept (draw : Nat → Window maxY maxX → Window maxY maxX) (s : Editor maxY maxX)
    (key : Nat) : Prop :=
  ∃ t, s.next draw key = some t ∧ s.KeepsOthers t ∧ t.Agrees

/-- Storing `c` fits: the cursor is in the first row, or the screen is square; or the cell shows `c`
    already and the byte that is stored to is `c` already, or one behind those of the screen. -/
def StoreFits (s : Editor maxY maxX) (c : UInt8) : Prop :=
  (s.win.y.val = 0 ∨ maxY = maxX) ∨
    s.win.cells s.win.y s.win.x = c ∧
      (s.readBuf.bytes[s.index]? = some c ∨ maxY * maxX ≤ s.index ∧ s.index < BUF_SIZE)

/-- In the first column the rest of the row is blank. -/
def RowFits (s : Editor maxY maxX) : Prop := s.win.x.val = 0 → s.win.RestBlank

/-- A key fits when what it stores fits, and `KEY_BACKSPACE` moves blanks at most. -/
def Fits (s : Editor maxY maxX) (key : Nat) : Prop :=
  s.mode = .insert → key ≠ ESC →
    if key = KEY_BACKSPACE then s.StoreFits blank ∧ s.RowFits else s.StoreFits (UInt8.ofNat key)

/-! ### The invariant -/

/-- The bytes of the screen are the printable characters it shows. -/
def Shown (s : Editor maxY maxX) : Prop :=
  ∀ (y : Fin maxY) (x : Fin maxX), s.readBuf.bytes[rowMajor maxX y x]? = some (s.win.cells y x) ∧
    Printable (s.win.cells y x).toNat

theorem ne_zero_of_printable {c : UInt8} (h : Printable c.toNat) : c ≠ 0 := by
  rintro rfl
  exact absurd h.1 (by decide)

/-- What is shown agrees. -/
theorem Shown.agrees (h : s.Shown) : s.Agrees := by
  intro y x
  refine getElem?_text (h y x).1 fun j hj => ?_
  -- every earlier byte is that of a cell too, and no NUL is printable
  obtain ⟨y', x', hy', hx', rfl⟩ := exists_rowMajor (lt_of_le_of_lt hj (rowMajor_lt y.isLt x.isLt))
  have hcell := h ⟨y', hy'⟩ ⟨x', hx'⟩
  rw [hcell.1]
  exact fun h0 => ne_zero_of_printable hcell.2 (Option.some.inj h0)

/-- An agreement on printable characters shows them. -/
theorem Agrees.shown (h : s.Agrees) (hp : ∀ y x, Printable (s.win.cells y x).toNat) : s.Shown :=
  fun y x => ⟨getElem?_of_text (h y x), hp y x⟩

/-! ### One store -/

/-- The byte of the cell under the cursor. -/
def offset (s : Editor maxY maxX) : Nat := rowMajor maxX s.win.y s.win.x

/-- The store goes to the byte of the cursor in the first row, or on a square screen, only. -/
theorem index_eq_offset_iff (s : Editor maxY maxX) :
    s.index = s.offset ↔ s.win.y.val = 0 ∨ maxY = maxX := by
  rw [index, offset, rowMajor, Nat.add_right_cancel_iff]
  constructor
  · intro h
    by_cases hy : s.win.y.val = 0
    · exact Or.inl hy
    · exact Or.inr (Nat.eq_of_mul_eq_mul_left (Nat.pos_of_ne_zero hy) h)
  · rintro (h | h)
    · rw [h, Nat.zero_mul, Nat.zero_mul]
    · exact congrArg (s.win.y.val * ·) h

theorem offset_lt (s : Editor maxY maxX) : s.offset < maxY * maxX :=
  rowMajor_lt s.win.y.isLt s.win.x.isLt

theorem rowMajor_ne_offset {y : Fin maxY} {x : Fin maxX} (h : ¬ (y = s.win.y ∧ x = s.win.x)) :
    rowMajor maxX y x ≠ s.offset := by
  rw [offset, Ne, rowMajor_inj x.isLt s.win.x.isLt]
  exact fun he => h ⟨Fin.ext he.1, Fin.ext he.2⟩

/-- **A store at the byte of the cursor** keeps the agreement with the window that shows it. -/
theorem store_offset_iff {c : UInt8} {w : Window maxY maxX} (hs : s.Shown)
    (hsize : maxY * maxX ≤ BUF_SIZE) (hc : Printable c.toNat) (hi : s.index = s.offset) :
    (∃ buf, s.store c = some buf ∧ s.KeepsOthers { s with win := w, readBuf := buf } ∧
        Agrees { s with win := w, readBuf := buf }) ↔
      w.cells = (s.win.put c).cells := by
  have hlt : s.index < BUF_SIZE := hi ▸ lt_of_lt_of_le s.offset_lt hsize
  obtain ⟨buf, hbuf⟩ : ∃ buf, s.store c = some buf := ⟨_, if_pos hlt⟩
  obtain ⟨_, hget⟩ := store_eq_some hbuf
  -- the buffer holds the cells of the window with `c` put in
  have hcell : ∀ (y : Fin maxY) (x : Fin maxX),
      buf.bytes[rowMajor maxX y x]? = some ((s.win.put c).cells y x) := by
    intro y x
    rw [hget, hi]
    by_cases hyx : y = s.win.y ∧ x = s.win.x
    · rw [if_pos (by rw [offset, hyx.1, hyx.2]), Window.cells_put, if_pos hyx]
    · rw [if_neg (rowMajor_ne_offset hyx), Window.cells_put, if_neg hyx]
      exact (hs y x).1
  constructor
  · rintro ⟨buf', hbuf', _, hagree⟩
    rw [hbuf] at hbuf'
    cases hbuf'
    funext y x
    -- what agrees with the text has the byte the buffer holds there
    have := getElem?_of_text (hagree y x)
    exact (Option.some.inj ((hcell y x).symm.trans this)).symm
  · intro hw
    refine ⟨buf, hbuf, fun y x hyx => ?_, Shown.agrees fun y x => ⟨?_, ?_⟩⟩
    · show buf.bytes[rowMajor maxX y x]? = _
      rw [hget, hi, if_neg (rowMajor_ne_offset hyx)]
    · show buf.bytes[rowMajor maxX y x]? = some (w.cells y x)
      rw [hw]
      exact hcell y x
    · show Printable (w.cells y x).toNat
      rw [hw, Window.cells_put]
      split
      · exact hc
      · exact (hs y x).2

/-- **A store elsewhere** keeps the agreement only where it changes nothing of the screen. -/
theorem store_elsewhere_iff {c : UInt8} {w : Window maxY maxX} (hs : s.Shown)
    (hi : s.index ≠ s.offset) :
    (∃ buf, s.store c = some buf ∧ s.KeepsOthers { s with win := w, readBuf := buf } ∧
        Agrees { s with win := w, readBuf := buf }) ↔
      w.cells = s.win.cells ∧
        (s.readBuf.bytes[s.index]? = some c ∨ maxY * maxX ≤ s.index ∧ s.index < BUF_SIZE) := by
  constructor
  · rintro ⟨buf, hbuf, hkeep, hagree⟩
    obtain ⟨hlt, hget⟩ := store_eq_some hbuf
    -- the byte of the cursor is not the one stored to, the others are kept
    have hbytes : ∀ (y : Fin maxY) (x : Fin maxX),
        buf.bytes[rowMajor maxX y x]? = s.readBuf.bytes[rowMajor maxX y x]? := by
      intro y x
      by_cases hyx : y = s.win.y ∧ x = s.win.x
      · rw [hget, if_neg]
        rw [hyx.1, hyx.2]
        exact Ne.symm hi
      · exact hkeep y x hyx
    refine ⟨?_, ?_⟩
    · funext y x
      have := getElem?_of_text (hagree y x)
      rw [show ({ s with win := w, readBuf := buf } : Editor maxY maxX).readBuf = buf from rfl,
        hbytes, (hs y x).1] at this
      exact (Option.some.inj this).symm
    · -- a byte of the screen that is stored to must have been `c`
      by_cases hin : s.index < maxY * maxX
      · obtain ⟨y, x, hy, hx, hyx⟩ := exists_rowMajor hin
        have := hbytes ⟨y, hy⟩ ⟨x, hx⟩
        rw [hget, if_pos hyx, hyx] at this
        exact Or.inl this.symm
      · exact Or.inr ⟨by omega, hlt⟩
  · rintro ⟨hw, hbyte⟩
    -- either way the store is inside the buffer and no byte of the screen changes
    have hlt : s.index < BUF_SIZE := by
      rcases hbyte with hbyte | hbyte
      · obtain ⟨hlt, _⟩ := List.getElem?_eq_some_iff.mp hbyte
        rw [s.readBuf.length_eq] at hlt
        exact hlt
      · exact hbyte.2
    obtain ⟨buf, hbuf⟩ : ∃ buf, s.store c = some buf := ⟨_, if_pos hlt⟩
    obtain ⟨_, hget⟩ := store_eq_some hbuf
    have hbytes : ∀ (y : Fin maxY) (x : Fin maxX),
        buf.bytes[rowMajor maxX y x]? = s.readBuf.bytes[rowMajor maxX y x]? := by
      intro y x
      rw [hget]
      split
      · rename_i hyx
        rcases hbyte with hbyte | hbyte
        · rw [hyx, hbyte]
        · have := rowMajor_lt y.isLt x.isLt
          omega
      · rfl
    refine ⟨buf, hbuf, fun y x _ => hbytes y x, Shown.agrees fun y x => ⟨?_, ?_⟩⟩
    · show buf.bytes[rowMajor maxX y x]? = some (w.cells y x)
      rw [hbytes, hw]
      exact (hs y x).1
    · show Printable (w.cells y x).toNat
      rw [hw]
      exact (hs y x).2

/-- **One store.**  The window `w` shows the store of `c` when it is the old one with `c` put in;
    then the agreement is kept exactly when the store fits. -/
theorem store_put_iff {c : UInt8} {w : Window maxY maxX} (hs : s.Shown)
    (hsize : maxY * maxX ≤ BUF_SIZE) (hc : Printable c.toNat) (hw : w.cells = (s.win.put c).cells) :
    (∃ buf, s.store c = some buf ∧ s.KeepsOthers { s with win := w, readBuf := buf } ∧
        Agrees { s with win := w, readBuf := buf }) ↔ s.StoreFits c := by
  rw [StoreFits, ← index_eq_offset_iff]
  by_cases hi : s.index = s.offset
  · rw [store_offset_iff hs hsize hc hi]
    exact ⟨fun _ => Or.inl hi, fun _ => hw⟩
  · rw [store_elsewhere_iff hs hi, hw, Window.cells_put_eq_iff, or_iff_right hi]

/-- `KEY_BACKSPACE` in the first column. -/
theorem store_delch_iff (hs : s.Shown) (hsize : maxY * maxX ≤ BUF_SIZE) (hx : s.win.x.val = 0) :
    (∃ buf, s.store blank = some buf ∧
        s.KeepsOthers { s with win := s.win.delch, readBuf := buf } ∧
        Agrees { s with win := s.win.delch, readBuf := buf }) ↔
      s.StoreFits blank ∧ s.RowFits := by
  rw [StoreFits, ← index_eq_offset_iff, RowFits]
  by_cases hi : s.index = s.offset
  · rw [store_offset_iff hs hsize (by decide) hi, s.win.cells_delch_eq_put_iff hx]
    exact ⟨fun h => ⟨Or.inl hi, fun _ => h⟩, fun h => h.2 hx⟩
  · rw [store_elsewhere_iff hs hi, s.win.cells_delch_eq_iff hx, or_iff_right hi]
    exact ⟨fun h => ⟨⟨h.1.2, h.2⟩, fun _ => h.1.1⟩, fun h => ⟨⟨h.2 hx, h.1.1⟩, h.1.2⟩⟩

/-! ### One key -/

/-- A key that stores `c` and leaves the window `w`. -/
theorem kept_iff_of_next {key : Nat} {c : UInt8} {w : Window maxY maxX}
    (h : s.next draw key = (s.store c).bind fun buf => some { s with win := w, readBuf := buf }) :
    Kept draw s key ↔ ∃ buf, s.store c = some buf ∧
      s.KeepsOthers { s with win := w, readBuf := buf } ∧
      Agrees { s with win := w, readBuf := buf } := by
  rw [Kept, h]
  constructor
  · rintro ⟨t, ht, hk⟩
    obtain ⟨buf, hbuf, ht⟩ := Option.bind_eq_some_iff.mp ht
    cases ht
    exact ⟨buf, hbuf, hk⟩
  · rintro ⟨buf, hbuf, hk⟩
    exact ⟨_, Option.bind_eq_some_iff.mpr ⟨buf, hbuf, rfl⟩, hk⟩

/-- A key that moves the cursor or changes the mode keeps everything. -/
theorem kept_of_next {key : Nat} (hs : s.Shown) (h : s.next draw key = some t)
    (hbuf : t.readBuf = s.readBuf) (hcells : t.win.cells = s.win.cells) : Kept draw s key := by
  refine ⟨t, h, fun y x _ => by rw [hbuf], fun y x => ?_⟩
  rw [hbuf, hcells]
  exact hs.agrees y x

/-- **A printable key** keeps the agreement exactly when the byte it stores is the one of its
    cell, or changes nothing that is seen. -/
theorem kept_printable_iff {key : Nat} (hs : s.Shown) (hsize : maxY * maxX ≤ BUF_SIZE)
    (hmode : s.mode = .insert) (hkey : Printable key) :
    Kept draw s key ↔ s.StoreFits (UInt8.ofNat key) := by
  rw [kept_iff_of_next (next_printable draw hmode hkey)]
  exact store_put_iff hs hsize (by rw [toNat_ofNat_of_printable hkey]; exact hkey)
    (s.win.cells_addch _)

/-- **`KEY_BACKSPACE`** keeps it exactly when its blank is stored so, and the row, which moves left
    in the first column, has nothing to move. -/
theorem kept_backspace_iff (hs : s.Shown) (hsize : maxY * maxX ≤ BUF_SIZE)
    (hmode : s.mode = .insert) :
    Kept draw s KEY_BACKSPACE ↔ s.StoreFits blank ∧ s.RowFits := by
  by_cases hx : s.win.x.val = 0
  · rw [kept_iff_of_next (next_backspace_first draw hmode hx)]
    exact store_delch_iff hs hsize hx
  · have hrow : s.RowFits := fun h => absurd h hx
    rw [kept_iff_of_next (next_backspace draw hmode hx), and_iff_left hrow]
    exact store_put_iff hs hsize (by decide) (by simp)

/-- **One key** of an editing session keeps the agreement exactly when it fits. -/
theorem kept_iff {key : Nat} (hs : s.Shown) (hsize : maxY * maxX ≤ BUF_SIZE)
    (hkey : s.Covered key) : Kept draw s key ↔ s.Fits key := by
  unfold Covered at hkey
  cases hmode : s.mode with
  | command =>
    rw [hmode] at hkey
    refine iff_of_true ?_ (fun h => by rw [hmode] at h; cases h)
    have hnext := next_command draw hmode key
    rcases hkey with rfl | rfl | rfl | rfl | rfl
    all_goals exact kept_of_next hs hnext rfl (by simp)
  | insert =>
    rw [hmode] at hkey
    unfold Fits
    rcases hkey with hkey | rfl | rfl
    · have hesc : key ≠ ESC := by rintro rfl; exact absurd hkey (by decide)
      have hbs : key ≠ KEY_BACKSPACE := by rintro rfl; exact absurd hkey (by decide)
      rw [kept_printable_iff hs hsize hmode hkey, if_neg hbs]
      exact ⟨fun h _ _ => h, fun h => h hmode hesc⟩
    · rw [kept_backspace_iff hs hsize hmode, if_pos rfl]
      exact ⟨fun h _ _ => h, fun h => h hmode (by decide)⟩
    · -- `ESC` is the only key of the mode that stores nothing
      refine iff_of_true ?_ (fun _ h => absurd rfl h)
      exact kept_of_next hs (next_esc draw hmode) rfl rfl
  | help => rw [hmode] at hkey; exact absurd hkey id
  | closed => rw [hmode] at hkey; exact absurd hkey id

/-! ### Whole sessions -/

/-- A key of an editing session leaves printable characters on the screen. -/
theorem printable_next {key : Nat} (hs : s.Shown) (hkey : s.Covered key)
    (h : s.next draw key = some t) (y : Fin maxY) (x : Fin maxX) :
    Printable (t.win.cells y x).toNat := by
  have hput : ∀ c : UInt8, Printable c.toNat → Printable ((s.win.put c).cells y x).toNat := by
    intro c hc
    rw [Window.cells_put]
    split
    · exact hc
    · exact (hs y x).2
  unfold Covered at hkey
  cases hmode : s.mode with
  | command =>
    rw [hmode] at hkey
    rw [next_command draw hmode] at h
    -- no command writes on the screen
    rcases hkey with rfl | rfl | rfl | rfl | rfl
    all_goals
      cases h
      simpa using (hs y x).2
  | insert =>
    rw [hmode] at hkey
    rcases hkey with hkey | rfl | rfl
    · -- what is typed is printable, or it would not be drawn
      rw [next_printable draw hmode hkey, Option.bind_eq_some_iff] at h
      obtain ⟨buf, _, h⟩ := h
      cases h
      have := hput (UInt8.ofNat key) (by rw [toNat_ofNat_of_printable hkey]; exact hkey)
      simpa using this
    · by_cases hx : s.win.x.val = 0
      · rw [next_backspace_first draw hmode hx, Option.bind_eq_some_iff] at h
        obtain ⟨buf, _, h⟩ := h
        cases h
        by_cases hy : y = s.win.y
        · -- the row moves to the left, and a blank comes in at its end
          subst hy
          show Printable (s.win.delch.cells s.win.y x).toNat
          rw [s.win.cells_delch hx]
          split
          · exact (hs _ _).2
          · decide
        · show Printable (s.win.delch.cells y x).toNat
          rw [s.win.cells_delch_of_ne hy]
          exact (hs y x).2
      · -- behind the first column a blank takes the place of a character
        rw [next_backspace draw hmode hx, Option.bind_eq_some_iff] at h
        obtain ⟨buf, _, h⟩ := h
        cases h
        have := hput blank (by decide)
        simpa using this
    · rw [next_esc draw hmode] at h
      cases h
      exact (hs y x).2
  | help => rw [hmode] at hkey; exact absurd hkey id
  | closed => rw [hmode] at hkey; exact absurd hkey id

/-- **Screen and buffer agree over a whole session** if and only if every key fits.  The session
    starts from any state in which the bytes of the screen are the printable characters it
    shows. -/
theorem agreement_iff (hsize : maxY * maxX ≤ BUF_SIZE) (hs : s.Shown) {keys : List Nat}
    (hkeys : Along (next draw) Covered s keys) :
    Along (next draw) (Kept draw) s keys ↔ Along (next draw) Fits s keys := by
  refine along_congr (I := Shown) ?_ (fun s key hs hkey => kept_iff hs hsize hkey) hs hkeys
  rintro s key t hs hkey ⟨t', ht', _, hagree⟩ ht
  rw [ht] at ht'
  cases ht'
  exact hagree.shown (printable_next hs hkey ht)

/-- A screen of blanks, with the cursor in its first cell. -/
def blankEditor (y : Fin 24) : Editor 24 80 where
  mode := .insert
  win := ⟨fun _ _ => blank, y, 0⟩
  readBuf := ⟨List.replicate BUF_SIZE blank, List.length_replicate⟩
  file := []

theorem shown_blankEditor (y : Fin 24) : (blankEditor y).Shown := by
  intro y x
  refine ⟨List.getElem?_replicate_of_lt ?_, ?_⟩
  · exact lt_of_lt_of_le (rowMajor_lt y.isLt x.isLt) (by decide)
  · show Printable blank.toNat
    decide

/-- In the first row: `xy` is typed, the cursor goes back between the two, `z` is typed over the
    `y` and the blank behind it is erased. -/
theorem agreement_first_row :
    Along (next fun _ w => w) (Kept fun _ w => w) (blankEditor 0)
      ['x'.toNat, 'y'.toNat, ESC, KEY_LEFT, 'i'.toNat, 'z'.toNat, KEY_BACKSPACE] := by
  have hrow : (0 : Nat) = 0 ∨ 24 = 80 := Or.inl rfl
  have hrun : Along (next fun _ w => w) (fun s key => s.Covered key ∧ s.Fits key) (blankEditor 0)
      ['x'.toNat, 'y'.toNat, ESC, KEY_LEFT, 'i'.toNat, 'z'.toNat, KEY_BACKSPACE] := by
    refine Along.cons ⟨Or.inl (by decide), fun _ _ => Or.inl hrow⟩ rfl ?_
    refine Along.cons ⟨Or.inl (by decide), fun _ _ => Or.inl hrow⟩ rfl ?_
    refine Along.cons ⟨Or.inr (Or.inr rfl), fun _ h => absurd rfl h⟩ rfl ?_
    refine Along.cons ⟨Or.inr (Or.inr (Or.inr (Or.inl rfl))), fun h => by cases h⟩ rfl ?_
    refine Along.cons ⟨Or.inr (Or.inr (Or.inr (Or.inr rfl))), fun h => by cases h⟩ rfl ?_
    refine Along.cons ⟨Or.inl (by decide), fun _ _ => Or.inl hrow⟩ rfl ?_
    refine Along.cons ⟨Or.inr (Or.inl rfl), fun _ _ => ⟨Or.inl hrow, ?_⟩⟩ rfl trivial
    exact fun hx => absurd hx (by decide)
  exact (agreement_iff (by decide) (shown_blankEditor 0) (hrun.imp fun _ _ h => h.1)).mpr
    (hrun.imp fun _ _ h => h.2)

/-- Typing `x` in the second row of a terminal of 24 lines and 80 columns: the byte of the 25th
    cell of the first row is changed. -/
theorem not_agreement :
    ¬ ∀ (maxY maxX : Nat) (draw : Nat → Window maxY maxX → Window maxY maxX)
      (s : Editor maxY maxX) (keys : List Nat), maxY * maxX ≤ BUF_SIZE → s.Shown →
      Along (next draw) Covered s keys → Along (next draw) (Kept draw) s keys := by
  intro h
  have hkeys : Along (next fun _ w => w) Covered (blankEditor 1) ['x'.toNat] :=
    ⟨Or.inl (by decide), fun _ _ => trivial⟩
  have hkept := (h 24 80 _ (blankEditor 1) ['x'.toNat] (by decide) (shown_blankEditor 1) hkeys).1
  rw [kept_printable_iff (shown_blankEditor 1) (by decide) rfl (by decide), StoreFits] at hkept
  rcases hkept with (h | h) | ⟨h, _⟩
  · exact absurd h (by decide)
  · exact absurd h (by decide)
  · exact absurd h (by decide)

end Editor

end EltexHomeworks.TextEditor
