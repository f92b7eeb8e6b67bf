import EltexHomeworks.FileManager.Viewport
import EltexHomeworks.FileManager.Steps

namespace EltexHomeworks.FileManager

open EltexHomeworks.Lib

/-!
# File manager — the cursor invariant over whole runs

Both panels stay in order (`Panel.InOrder`) under every key, whatever the system calls return, as
long as every directory has two entries or more and two rows are usable.  The counters of a panel
in order fit together as `CursorAgrees` says: the highlighted row shows the entry that `ENTER`
opens.
-/

variable {Dir : Type} {size : Nat}

/-- The systems whose directories all have an entry besides `.`, as `..` is. -/
def populated : Set (Os Dir) := { os | ∀ d, 2 ≤ (os.readdir d).1.length }

/-- A panel with `size` usable rows whose counters, listing and drawing fit together. -/
structure Panel.InOrder (win : Panel) (mem : Memory Dir) (size : Nat) : Prop where
  maxY : win.maxY = size + 2
  cursor : ∃ n, ∃ c : ScrollCursor n size, win.At c
  listed : win.Listed mem
  drawn : win.Drawn

namespace Panel.InOrder

variable {win : Panel} {mem mem' : Memory Dir}

/-- What happens to other arrays in memory does not matter to a panel. -/
theorem mono (h : win.InOrder mem size) (hk : mem.Keeps mem') : win.InOrder mem' size :=
  ⟨h.maxY, h.cursor, h.listed.mono hk, h.drawn⟩

/-- Where `work_dir` points and which panel is active do not matter either. -/
theorem congr (h : win.InOrder mem size) (ref : StrRef) (active : Bool) :
    ({ win with workDir := ref, active := active } : Panel).InOrder mem size := by
  obtain ⟨hmax, ⟨n, c, hc⟩, hl, hd⟩ := h
  exact ⟨hmax, ⟨n, c, ⟨hc.1, hc.2, hc.3, hc.4, hc.5⟩⟩, hl, hd⟩

/-- A cursor key keeps the panel in order. -/
theorem moved {os : Os Dir} {p : Process Dir} {move : Process Dir → Panel → Except Stop Panel}
    {w : Panel} (h : win.InOrder p.mem size) (hmove : move = keyUp os ∨ move = keyDown os)
    (hw : move p win = .ok w) : w.InOrder p.mem size ∧ w.active = win.active := by
  obtain ⟨hmax, ⟨n, c, hc⟩, hl, hd⟩ := h
  have key : ∃ c' : ScrollCursor n size, MovesTo (move p win) win c' := by
    rcases hmove with rfl | rfl
    · exact ⟨_, keyUp_movesTo os hc hl hd⟩
    · exact ⟨_, keyDown_movesTo os hc hl hd⟩
  obtain ⟨c', w', hw', hsame, hc', hd'⟩ := key
  rw [hw] at hw'
  cases hw'
  exact ⟨⟨hsame.maxY.trans hmax, ⟨n, c', hc'⟩, hsame.listed hl, hd'⟩, hsame.active⟩

end Panel.InOrder

/-! ### Opening a directory -/

/-- The panel `ListDir` leaves: it is in order but for the drawing. -/
structure Panel.Opened (win : Panel) (mem : Memory Dir) (size : Nat) : Prop where
  maxY : win.maxY = size + 2
  cursor : ∃ n, ∃ c : ScrollCursor n size, win.At c
  listed : win.Listed mem
  selectedObj : win.selectedObj = 1

/-- Drawing an opened panel puts it in order. -/
theorem Panel.Opened.draw {os : Os Dir} {p : Process Dir} {w w' : Panel}
    (h : w.Opened p.mem size) (hw : renderingListDir os p w = .ok w') :
    w'.InOrder p.mem size ∧ w'.active = w.active := by
  obtain ⟨hmax, ⟨n, c, hc⟩, hl, _⟩ := h
  obtain ⟨d, hd, _, hdrawn⟩ := renderingListDir_spec os p w hl
  rw [hw] at hd
  cases hd
  exact ⟨⟨hmax, ⟨n, c, ⟨hc.1, hc.2, hc.3, hc.4, hc.5⟩⟩, hl, hdrawn⟩, rfl⟩

/-- The counters `ListDir` sets are those of the cursor on the first entry. -/
theorem rewind_at {win : Panel} {n : Nat} (hn : 2 ≤ n) (hn31 : n < 2 ^ 31) (hs : 2 ≤ size)
    (hs31 : size + 2 < 2 ^ 32) (hmax : win.maxY = size + 2) (id : Option Nat) :
    ({ win.rewind (UInt32.ofNat n) with nameList := id } : Panel).At
      (ScrollCursor.first hn hs) := by
  have hm' : (UInt32.ofNat win.maxY).toNat = win.maxY := toNat_ofNat (by omega)
  refine ⟨toNat_ofNat (by omega), ?_, rfl, rfl, rfl⟩
  show (UInt32.ofNat win.maxY - 2).toNat = size
  have htwo : (2 : UInt32).toNat = 2 := rfl
  rw [toNat_diff (by omega), hm', htwo]
  omega

/-- The panel and the listing `ListDir` leaves when it succeeds. -/
theorem listDir_listed {os : Os Dir} {win w : Panel} {p p' : Process Dir}
    (h : listDir os win p = .ok (0, w, p')) :
    w.Listed p'.mem ∧ w.listBegin = 0 ∧ w.listEnd = w.size ∧ w.y = 1 ∧ w.selectedObj = 1 := by
  obtain ⟨name, path, p₁, _, _, _, ⟨_, hret, _⟩ | ⟨dir, list, _, _, _, hnames, rfl, rfl⟩⟩ :=
    listDir_cases h
  · exact absurd hret (by decide)
  · refine ⟨⟨list, Memory.list_alloc _ _, ?_⟩, rfl, rfl, rfl, rfl⟩
    have hlen := congrArg List.length hnames
    rw [List.length_map, List.length_map] at hlen
    rw [hlen]
    exact (toNat_ofNat (by have := (os.readdir dir).2; omega)).symm

/-- **`ListDir` opens** a directory with the panel in order, unless it fails. -/
theorem listDir_opened {os : Os Dir} {win w : Panel} {p p' : Process Dir} {ret : Int}
    (h : listDir os win p = .ok (ret, w, p')) (hos : os ∈ populated) (hs : 2 ≤ size)
    (hs31 : size + 2 < 2 ^ 32) (hmax : win.maxY = size + 2) (hret : ret ≠ -1) :
    w.Opened p'.mem size := by
  obtain ⟨_, _, _, _, _, _, ⟨_, hret', _⟩ | ⟨dir, _, _, hzero, _, _, hw, _⟩⟩ := listDir_cases h
  · exact absurd hret' hret
  · subst hzero
    obtain ⟨hlisted, _⟩ := listDir_listed h
    subst hw
    exact ⟨hmax, ⟨_, _, rewind_at (hos dir) (os.readdir dir).2 hs hs31 hmax _⟩, hlisted, rfl⟩

/-! ### Runs -/

/-- Both panels are in order. -/
def State.InOrder (s : State Dir) (size : Nat) : Prop :=
  ∀ i, (s.win i).InOrder s.proc.mem size

/-- A panel and a memory replaced by ones in order. -/
theorem State.InOrder.update {s : State Dir} {w : Panel} {p : Process Dir} (h : s.InOrder size)
    (hk : s.proc.mem.Keeps p.mem) (i : Side) (hw : w.InOrder p.mem size) :
    (s.update i w p).InOrder size :=
  State.forall_update s i w p (P := fun v m => v.InOrder m size) Panel.InOrder.mono h hk hw

/-- The rows of the terminal of `b` that a panel can use. -/
def Boot.usable (b : Boot Dir) : Nat := newwinRows b.maxY (b.maxY - 1) - 2

theorem Boot.usable_lt {b : Boot Dir} (hb : 2 ≤ b.usable) :
    newwinRows b.maxY (b.maxY - 1) = b.usable + 2 ∧ b.usable + 2 < 2 ^ 32 := by
  have hlt := b.maxY_lt
  have hrows : newwinRows b.maxY (b.maxY - 1) ≤ b.maxY := by
    unfold newwinRows
    split <;> omega
  unfold Boot.usable at hb ⊢
  omega

/-- Start-up leaves both panels in order. -/
theorem start_inOrder {osR osL : Os Dir} {b : Boot Dir} {s : State Dir}
    (h : start osR osL b = .ok s) (hR : osR ∈ populated) (hL : osL ∈ populated)
    (hb : 2 ≤ b.usable) : s.InOrder b.usable := by
  obtain ⟨hmax, h32⟩ := Boot.usable_lt hb
  obtain ⟨_, right, pR, _, _, left, pL, _, hlistR, hright, hlistL, hleft, rfl⟩ := start_cases h
  -- neither panel had a listing before, so neither `ListDir` can have failed
  cases listDir_first hlistR rfl
  cases listDir_first hlistL rfl
  have hoR := listDir_opened hlistR hR hb h32 hmax (by decide)
  have hoL := listDir_opened hlistL hL hb h32 hmax (by decide)
  intro i
  cases i with
  | left => exact (hoL.draw hleft).1
  | right => exact (hoR.draw hright).1.mono (listDir_keeps hlistL)

/-- Every key keeps both panels in order. -/
theorem handleKey_inOrder {os : Os Dir} {s s' : State Dir} {k : Key} (h : s.InOrder size)
    (hs : 2 ≤ size) (hs31 : size + 2 < 2 ^ 32) (hos : os ∈ populated)
    (hk : handleKey os s k = .ok s') : s'.InOrder size := by
  have hactive := h s.side
  rcases handleKey_cases hk with ⟨move, w, hmove, hw, rfl⟩ | ⟨path, _, rfl⟩ |
    ⟨ref, ret, w, p, _, hlist, hcase⟩ | ⟨name, w, hw, rfl⟩
  · -- a cursor key
    exact h.update (Memory.Keeps.refl _) _ (hactive.moved hmove hw).1
  · -- `TAB` changes `work_dir` and `active`, which no counter depends on
    intro i
    cases i with
    | left => exact (h .left).congr s.leftWin.workDir (!s.leftWin.active)
    | right => exact h .right
  · -- `ENTER` on a directory: a failed `ListDir` left the panel, else it is drawn anew
    have hkeep := listDir_keeps hlist
    rcases hcase with ⟨hret, rfl⟩ | ⟨w', hw', hret, rfl⟩
    · refine h.update hkeep _ ?_
      obtain ⟨_, rfl, _⟩ | ⟨hzero, _⟩ := listDir_ret hlist
      · exact (hactive.mono hkeep).congr ref (s.win s.side).active
      · omega
    · have ho := listDir_opened hlist hos hs hs31 hactive.maxY hret
      rw [listDir_select hlist hret] at hw'
      exact h.update hkeep _ (ho.draw hw').1
  · -- `ENTER` on a file: the counters stay and the panel is redrawn
    have hmem := mem_tryExec os name s.proc
    have hl : (s.win s.side).Listed (tryExec os name s.proc).2.mem := by
      rw [hmem]; exact hactive.listed
    obtain ⟨d, hd, _, hdrawn⟩ := renderingListDir_spec os (tryExec os name s.proc).2 _ hl
    rw [hw] at hd
    cases hd
    obtain ⟨n, c, hc⟩ := hactive.cursor
    refine h.update (by rw [hmem]; exact Memory.Keeps.refl _) _ ⟨hactive.maxY,
      ⟨n, c, ⟨hc.1, hc.2, hc.3, hc.4, hc.5⟩⟩, hl, hdrawn⟩

/-! ### The agreement of the counters -/

/-- The counters, the listing and the drawing of a panel agree: the cursor is on row `y`, where
    the entry `list_begin + y` was drawn last, and that is the entry `ENTER` opens. -/
structure CursorAgrees (mem : Memory Dir) (win : Panel) : Prop where
  selected : win.selectedObj.toNat = win.listBegin.toNat + win.y.toNat
  row_pos : 1 ≤ win.y.toNat
  row_le : win.y.toNat ≤ win.size.toNat - 1
  selected_pos : 1 ≤ win.selectedObj.toNat
  selected_lt : win.selectedObj.toNat < win.dirNum.toNat
  fits : win.dirNum.toNat ≤ win.size.toNat → win.listBegin.toNat = 0
  scrolls : win.size.toNat < win.dirNum.toNat →
    win.listBegin.toNat + win.size.toNat ≤ win.dirNum.toNat
  drawn : ∃ d, win.drawn = some d ∧ d.listBegin = win.listBegin ∧
    ∃ r ∈ d.rows, r.row = win.y.toNat ∧ r.entry = win.selectedObj.toNat
  opens : ∃ id, selectedName mem win = .ok (.dName id (win.listBegin.toNat + win.y.toNat))

/-- The counters of a panel in order agree. -/
theorem Panel.InOrder.agrees {win : Panel} {mem : Memory Dir} (h : win.InOrder mem size) :
    CursorAgrees mem win := by
  obtain ⟨_, ⟨n, c, hn, hs, hb, hy, ho⟩, hl, d, hd, hbegin, hrows⟩ := h
  unfold ScrollCursor.entry at ho
  have hpos := c.row_pos
  have hrow := c.row_lt
  have hent := c.entry_lt
  have htop := c.top_eq
  have htop' := c.top_le
  refine ⟨by omega, by omega, by omega, by omega, by omega, by omega, by omega,
    ⟨d, hd, hbegin, ?_⟩, ?_⟩
  · obtain ⟨r, hr, hrow, hentry⟩ := hrows win.y.toNat (by omega)
    exact ⟨r, hr, hrow, by omega⟩
  · obtain ⟨e, he⟩ := hl.entry (i := win.selectedObj.toNat) (by omega)
    obtain ⟨l, hlist, _⟩ := hl
    cases hid : win.nameList with
    | none => rw [hid, Memory.list_none] at hlist; cases hlist
    | some id =>
      refine ⟨id, ?_⟩
      rw [selectedName, he, hid]
      show Except.ok (StrRef.dName id _) = _
      rw [ho, hb, hy]

/-- **Cursor and viewport agree in every run.** On a terminal with two usable rows or more, and
    with two entries or more in every directory, the counters of both panels agree after every
    sequence of keys, whatever the system calls of each handler return. -/
theorem cursor_agrees (b : Boot Dir) (hb : 2 ≤ b.usable) {s : State Dir}
    (hs : (fileManager b populated).Reachable s) (i : Side) :
    CursorAgrees s.proc.mem (s.win i) := by
  have h32 := (Boot.usable_lt hb).2
  have hinv : (fileManager b populated).Invariant fun s => s.InOrder b.usable :=
    { base := by
        rintro s ⟨osR, hR, osL, hL, h⟩
        exact start_inOrder h hR hL hb
      keep := by
        rintro s ⟨k, os⟩ s' hs ⟨hos, hk⟩
        exact handleKey_inOrder hs hb h32 hos hk }
  exact (hinv.of_reachable hs i).agrees

/-- A system whose only directory has the entries `.`, `..` and `a`. -/
def singleDir : Os Unit where
  chdir _ _ := some ()
  getcwd _ := some [47]
  opendir _ _ := some ()
  readdir _ := ⟨[⟨[46], 0⟩, ⟨[46, 46], 0⟩, ⟨[97], 0⟩], by decide⟩
  lstat _ _ := some 0o040755
  malloc := []
  fork := true

/-- The program is started in it, with `HOME=/`. -/
def singleBoot : Boot Unit := .terminal () [47]

theorem cursor_agrees_after_down :
    ∃ s, (fileManager singleBoot populated).Reachable s ∧ s.leftWin.selectedObj = 2 ∧
      CursorAgrees s.proc.mem (s.win .left) := by
  have hos : singleDir ∈ populated := fun _ => show 2 ≤ 3 by decide
  have hs : ∃ s, (fileManager singleBoot populated).Reachable s ∧ s.leftWin.selectedObj = 2 :=
    ⟨_, .step (l := (.KEY_DOWN, singleDir)) (.init ⟨_, hos, _, hos, rfl⟩) ⟨hos, rfl⟩, rfl⟩
  obtain ⟨s, hr, hsel⟩ := hs
  exact ⟨s, hr, hsel, cursor_agrees singleBoot (by decide) hr .left⟩

end EltexHomeworks.FileManager
