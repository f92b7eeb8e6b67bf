import Mathlib.Tactic.SplitIfs
import EltexHomeworks.FileManager.Borders
import EltexHomeworks.FileManager.ClimbCopy

namespace EltexHomeworks.FileManager

open EltexHomeworks.Lib

/-!
# File manager — every access to a listing, every subtraction

The predicates below follow the branches of the handlers and say of each reading of
`name_list[selected_obj]` that there is a listing and the index is below `dir_num`, and of each
`unsigned int` subtraction that it does not wrap.  `keySafe_iff` says when that is so of a key in a
panel whose counters are sound, and `accessSafe_iff` of a whole run.
-/

variable {Dir : Type}

/-! ### What the handlers evaluate -/

/-- `name_list[selected_obj]` is an entry of a listing that `scandir` filled. -/
def Panel.ReadsEntry (win : Panel) (mem : Memory Dir) : Prop :=
  (∃ l, mem.list win.nameList = .ok l) ∧ win.selectedObj.toNat < win.dirNum.toNat

/-- No subtraction of `CoordControl` wraps. -/
def CoordControlSafe (win : Panel) : Prop :=
  if win.dirNum > win.size then
    if win.y ≥ win.size then 1 ≤ win.size.toNat
    else if win.y < 1 then
      if win.selectedObj > 0 then 1 ≤ win.listBegin.toNat ∧ 1 ≤ win.listEnd.toNat
      else 1 ≤ win.size.toNat ∧ win.size.toNat ≤ win.dirNum.toNat ∧ 1 ≤ win.dirNum.toNat
    else True
  else if win.y < 1 then 1 ≤ win.dirNum.toNat
  else True

/-- The `KEY_UP` handler. -/
def KeyUpSafe (mem : Memory Dir) (win : Panel) : Prop :=
  win.ReadsEntry mem ∧ 1 ≤ win.y.toNat ∧ 1 ≤ win.selectedObj.toNat ∧
    CoordControlSafe { win with y := win.y - 1, selectedObj := win.selectedObj - 1 }

/-- The `KEY_DOWN` handler. -/
def KeyDownSafe (mem : Memory Dir) (win : Panel) : Prop :=
  win.ReadsEntry mem ∧
    CoordControlSafe { win with y := win.y + 1, selectedObj := win.selectedObj + 1 }

/-- `ListDir`, for a `work_dir` that reads as `name`: the status bar names the selected entry if
    `scandir` fails, and the size of the window is taken if it succeeds. -/
def ListDirSafe (os : Os Dir) (win : Panel) (p : Process Dir) : Prop :=
  ∀ name path, p.mem.read win.workDir = .ok name →
    (locate os win p name).mem.read win.workDir = .ok path →
    match os.scandir (locate os win p name).cwd path with
    | none => win.ReadsEntry (locate os win p name).mem
    | some _ => 2 ≤ win.maxY

/-- Both `ENTER` handlers read the selected entry, and call `ListDir` unless they run it. -/
def EnterSafe (os : Os Dir) (s : State Dir) : Prop :=
  (s.win s.side).ReadsEntry s.proc.mem ∧
    ∀ win, s.CallsListDir .ENTER win → ListDirSafe os win s.proc

/-- One turn of the loop of `main`. -/
def KeySafe (s : State Dir) (l : Key × Os Dir) : Prop :=
  match l.1 with
  | .KEY_UP => KeyUpSafe s.proc.mem (s.win s.side)
  | .KEY_DOWN => KeyDownSafe s.proc.mem (s.win s.side)
  | .TAB => True
  | .ENTER => EnterSafe l.2 s

/-- The two listings made at start-up. -/
def StartUpSafe (osR osL : Os Dir) (b : Boot Dir) : Prop :=
  ListDirSafe osR b.right (b.proc osR) ∧
    ∀ ret right p, listDir osR b.right (b.proc osR) = .ok (ret, right, p) →
      ListDirSafe osL b.left p

/-! ### When that is safe -/

/-- The terminal has three lines or more, the directory named by `HOME`, if it is set, can be
    opened, and so can the start directory, unless the program exits before. -/
def StartsListed (osR osL : Os Dir) (b : Boot Dir) : Prop :=
  ∀ home, b.home = some home → 3 ≤ b.maxY ∧
    ∃ found, osR.scandir (osR.lookup b.cwd home).1 (osR.lookup b.cwd home).2 = some found ∧
      ∀ cwd, cwd = osR.enter (osR.lookup b.cwd home).1 (osR.lookup b.cwd home).2 →
        (found.entries.all fun e => (osR.lstat cwd e.dName).isSome) = true →
        osL.opendir (osL.lookup cwd (osR.cwdString b.cwd)).1
          (osL.lookup cwd (osR.cwdString b.cwd)).2 ≠ none

/-- The active panel lists two entries or more; for a cursor key its window has a usable row, and
    for `KEY_UP` in a window of only one it stands at the beginning of the directory. -/
def KeyFitsListing (s : State Dir) (l : Key × Os Dir) : Prop :=
  match l.1 with
  | .TAB => True
  | .ENTER => 2 ≤ (s.win s.side).dirNum.toNat
  | .KEY_DOWN => 2 ≤ (s.win s.side).dirNum.toNat ∧ 1 ≤ (s.win s.side).size.toNat
  | .KEY_UP => 2 ≤ (s.win s.side).dirNum.toNat ∧ 1 ≤ (s.win s.side).size.toNat ∧
      ((s.win s.side).size.toNat = 1 → (s.win s.side).listBegin.toNat = 0)

/-! ### Sound counters -/

/-- The counters of a panel: as `ListDir` set them, those of a cursor, or those of a window of one
    row that has moved. -/
inductive Panel.Counters (win : Panel) : Prop
  | rewound (y : win.y = 1) (selectedObj : win.selectedObj = 1) (listBegin : win.listBegin = 0)
      (listEnd : win.listEnd = win.size)
  | cursor {n size : Nat} (c : ScrollCursor n size) (counters : win.At c)
      (listEnd : size < n → ∃ lag, (lag = 0 ∨ lag = 1) ∧
        win.listEnd + lag = win.listBegin + win.size)
  | oneRow (size : win.size.toNat = 1) (y : win.y.toNat = 0) (listBegin : 1 ≤ win.listBegin.toNat)
      (le : win.listBegin.toNat ≤ win.selectedObj.toNat)
      (lt : win.selectedObj.toNat < win.dirNum.toNat)

/-- A panel that is listed and drawn, with sound counters. -/
structure Panel.Sound (win : Panel) (mem : Memory Dir) : Prop where
  rows : win.maxY = win.size.toNat + 2
  rows_lt : win.maxY < 2 ^ 32
  listed : win.Listed mem
  drawn : win.Drawn
  counters : win.Counters

namespace Panel.Counters

variable {win : Panel}

/-- With two entries or more and two rows or more the counters are those of a cursor. -/
theorem exists_cursor (h : win.Counters) (hn : 2 ≤ win.dirNum.toNat) (hs : 2 ≤ win.size.toNat) :
    ∃ c : ScrollCursor win.dirNum.toNat win.size.toNat, win.At c ∧
      (win.size.toNat < win.dirNum.toNat → ∃ lag, (lag = 0 ∨ lag = 1) ∧
        win.listEnd + lag = win.listBegin + win.size) := by
  cases h with
  | rewound hy ho hb he =>
    refine ⟨ScrollCursor.first hn hs, ⟨rfl, rfl, congrArg UInt32.toNat hb, congrArg UInt32.toNat hy,
      congrArg UInt32.toNat ho⟩, fun _ => ⟨0, Or.inl rfl, ?_⟩⟩
    rw [he, hb, add_zero, zero_add]
  | cursor c hc he =>
    have hn := hc.dirNum
    have hs := hc.size
    subst hn hs
    exact ⟨c, hc, he⟩
  | oneRow hsize => omega

/-- The counters are sound whatever the other fields are. -/
theorem congr (h : win.Counters) (ref : StrRef) (active : Bool) (d : Option Drawing) :
    ({ win with workDir := ref, active := active, drawn := d } : Panel).Counters := by
  cases h with
  | rewound hy ho hb he => exact .rewound hy ho hb he
  | cursor c hc he => exact .cursor c ⟨hc.1, hc.2, hc.3, hc.4, hc.5⟩ he
  | oneRow hs hy hb hle hlt => exact .oneRow hs hy hb hle hlt

/-- In a window of one row the cursor is on row 1 before the first move, and on row 0 after it. -/
theorem oneRow_cases (h : win.Counters) (hs : win.size.toNat = 1) :
    win.y.toNat = 1 ∧ win.selectedObj.toNat = 1 ∧ win.listBegin.toNat = 0 ∨
      win.y.toNat = 0 ∧ 1 ≤ win.listBegin.toNat ∧
        win.listBegin.toNat ≤ win.selectedObj.toNat := by
  cases h with
  | rewound hy ho hb => exact Or.inl ⟨congrArg UInt32.toNat hy, congrArg UInt32.toNat ho,
      congrArg UInt32.toNat hb⟩
  | cursor c hc =>
    have htwo := c.two_le
    have hsize := hc.size
    omega
  | oneRow _ hy hb hle => exact Or.inr ⟨hy, hb, hle⟩

/-- An entry is selected as soon as there are two. -/
theorem selectedObj_lt_iff (h : win.Counters) :
    win.selectedObj.toNat < win.dirNum.toNat ↔ 2 ≤ win.dirNum.toNat := by
  cases h with
  | rewound _ ho =>
    rw [ho]
    exact Iff.rfl
  | cursor c hc =>
    have hlt := c.entry_lt
    have hpos := c.entry_pos
    rw [hc.selectedObj, hc.dirNum]
    exact iff_of_true hlt c.two_le.1
  | oneRow _ _ _ hle hlt => omega

end Panel.Counters

/-! ### One key is safe -/

namespace Panel.Sound

variable {win : Panel} {mem : Memory Dir}

theorem readsEntry_iff (h : win.Sound mem) : win.ReadsEntry mem ↔ 2 ≤ win.dirNum.toNat := by
  obtain ⟨l, hl, _⟩ := h.listed
  rw [← h.counters.selectedObj_lt_iff]
  exact ⟨And.right, fun hlt => ⟨⟨l, hl⟩, hlt⟩⟩

/-- A window without a usable row lets no cursor key through. -/
theorem size_pos {y o : UInt32} (hn : 2 ≤ win.dirNum.toNat)
    (hc : CoordControlSafe { win with y := y, selectedObj := o }) : 1 ≤ win.size.toNat := by
  by_contra hs
  have hgt : win.dirNum > win.size := gt_iff.mpr (by omega)
  have hy : y ≥ win.size := ge_iff.mpr (by omega)
  rw [CoordControlSafe, if_pos hgt, if_pos hy] at hc
  exact hs hc

theorem keyDownSafe_iff (h : win.Sound mem) :
    KeyDownSafe mem win ↔ 2 ≤ win.dirNum.toNat ∧ 1 ≤ win.size.toNat := by
  rw [KeyDownSafe, h.readsEntry_iff]
  refine and_congr_right fun hn => ⟨size_pos hn, fun hs => ?_⟩
  unfold CoordControlSafe
  simp only [gt_iff, ge_iff]
  -- `y` does not wrap to 0, so only the lower edge of the window can be reached
  have hy : (win.y + 1).toNat = win.y.toNat + 1 := by
    refine toNat_incr ?_
    have hn32 := win.dirNum.toNat_lt
    cases h.counters with
    | rewound hy => rw [hy]; decide
    | cursor c hc =>
      have hlt := c.entry_lt
      have hyc := hc.y
      have hnc := hc.dirNum
      omega
    | oneRow _ hy => omega
  have hone : (1 : UInt32).toNat = 1 := rfl
  rw [hy]
  split_ifs <;> omega

/-- The first row of the window, where `KEY_UP` scrolls or wraps. -/
theorem listEnd_pos {n size : Nat} {c : ScrollCursor n size} (hc : win.At c) {lag : UInt32}
    (hlag : lag = 0 ∨ lag = 1) (hend : win.listEnd + lag = win.listBegin + win.size)
    (htop : 1 ≤ c.top) (hgt : size < n) : 1 ≤ win.listEnd.toNat := by
  have htwo := c.two_le
  have htop' := c.top_le
  have hn32 := win.dirNum.toNat_lt
  have hn := hc.dirNum
  have hs := hc.size
  have hb := hc.listBegin
  have hsum := congrArg UInt32.toNat hend
  have hone : (1 : UInt32).toNat = 1 := rfl
  have hzero : (0 : UInt32).toNat = 0 := rfl
  rw [UInt32.toNat_add, UInt32.toNat_add] at hsum
  by_contra h0
  rcases hlag with rfl | rfl <;> omega

theorem keyUpSafe_iff (h : win.Sound mem) :
    KeyUpSafe mem win ↔ 2 ≤ win.dirNum.toNat ∧ 1 ≤ win.size.toNat ∧
      (win.size.toNat = 1 → win.listBegin.toNat = 0) := by
  rw [KeyUpSafe, h.readsEntry_iff]
  refine and_congr_right fun hn => ⟨fun ⟨hy, _, hc⟩ => ⟨size_pos hn hc, fun hs => ?_⟩,
    fun ⟨hs, hrow⟩ => ?_⟩
  · -- with one row a window that has moved would be read outside
    cases h.counters with
    | rewound _ _ hb => rw [hb]; rfl
    | cursor c hc =>
      have htwo := c.two_le
      have hsize := hc.size
      omega
    | oneRow _ hy0 => omega
  · have hone : (1 : UInt32).toNat = 1 := rfl
    -- then row and entry can be counted down, and a window that scrolls is not at its top
    have key : 1 ≤ win.y.toNat ∧ 1 ≤ win.selectedObj.toNat ∧ (win.size.toNat < win.dirNum.toNat →
        win.y.toNat = 1 → 2 ≤ win.selectedObj.toNat →
        1 ≤ win.listBegin.toNat ∧ 1 ≤ win.listEnd.toNat) ∧
        (win.size.toNat < win.dirNum.toNat → win.size.toNat = 1 → win.y.toNat = 1) ∧
        (win.size.toNat < win.dirNum.toNat → win.y.toNat ≤ win.size.toNat) := by
      rcases Nat.lt_or_ge win.size.toNat 2 with hs1 | hs2
      · -- one row: the window has not moved yet
        cases h.counters with
        | rewound hy ho hb =>
          rw [hy, ho]
          omega
        | cursor c hc =>
          have htwo := c.two_le
          have hsize := hc.size
          omega
        | oneRow _ _ hb => omega
      · obtain ⟨c, hc, hend⟩ := h.counters.exists_cursor hn hs2
        have hpos := c.row_pos
        have hrow := c.row_lt
        have hy := hc.y
        have ho := hc.selectedObj
        have hb := hc.listBegin
        unfold ScrollCursor.entry at ho
        refine ⟨by omega, by omega, fun hgt hy1 ho2 => ?_, by omega, by omega⟩
        obtain ⟨lag, hlag, hlagEnd⟩ := hend hgt
        exact ⟨by omega, listEnd_pos hc hlag hlagEnd (by omega) hgt⟩
    obtain ⟨hy, ho, hscroll, hrow1, hle⟩ := key
    refine ⟨hy, ho, ?_⟩
    have hy' : (win.y - 1).toNat = win.y.toNat - 1 := toNat_diff (by omega)
    have ho' : (win.selectedObj - 1).toNat = win.selectedObj.toNat - 1 := toNat_diff (by omega)
    unfold CoordControlSafe
    simp only [gt_iff, ge_iff]
    rw [hy', ho']
    split_ifs <;> omega

end Panel.Sound

/-- `ENTER` in a panel of two entries or more. -/
theorem enterSafe_iff (os : Os Dir) {s : State Dir}
    (h : (s.win s.side).Sound s.proc.mem) : EnterSafe os s ↔ 2 ≤ (s.win s.side).dirNum.toNat := by
  rw [EnterSafe, h.readsEntry_iff]
  refine and_iff_left_of_imp fun hn win hcalls => ?_
  obtain ⟨id, e, _, _, _, _, rfl, _⟩ := hcalls.spec
  intro name path _ _
  cases os.scandir (locate os ((s.win s.side).target id) s.proc name).cwd path with
  | none =>
    obtain ⟨l, hl, _⟩ := h.listed.mono (locate_keeps os ((s.win s.side).target id) s.proc name)
    exact ⟨⟨l, hl⟩, h.counters.selectedObj_lt_iff.mpr hn⟩
  | some found =>
    show 2 ≤ (s.win s.side).maxY
    rw [h.rows]
    exact Nat.le_add_left ..

/-- **One key**, pressed in a panel with sound counters, is safe exactly when it fits. -/
theorem keySafe_iff {s : State Dir} (h : (s.win s.side).Sound s.proc.mem) (l : Key × Os Dir) :
    KeySafe s l ↔ KeyFitsListing s l := by
  obtain ⟨k, os⟩ := l
  cases k with
  | KEY_UP => exact h.keyUpSafe_iff
  | KEY_DOWN => exact h.keyDownSafe_iff
  | TAB => exact Iff.rfl
  | ENTER => exact enterSafe_iff os h

/-! ### Start-up is safe -/

/-- The first listing of a panel: there is no old one to read when it fails. -/
theorem listDirSafe_iff {os : Os Dir} {win : Panel} {p : Process Dir} {name : Str}
    (hname : p.mem.read win.workDir = .ok name) (hnone : win.nameList = none) :
    ListDirSafe os win p ↔ 2 ≤ win.maxY ∧
      ∃ found, os.scandir (os.lookup p.cwd name).1 (os.lookup p.cwd name).2 = some found := by
  have hread := locate_read os hname
  have hcwd := locate_cwd os win p name
  constructor
  · intro hsafe
    have h := hsafe name _ hname hread
    rw [hcwd] at h
    cases hscan : os.scandir (os.lookup p.cwd name).1 (os.lookup p.cwd name).2 with
    | none =>
      -- the status bar would name an entry of an array that is not there yet
      rw [hscan] at h
      obtain ⟨⟨l, hl⟩, _⟩ := h
      rw [hnone, Memory.list_none] at hl
      cases hl
    | some found =>
      rw [hscan] at h
      exact ⟨h, found, rfl⟩
  · rintro ⟨hmax, found, hscan⟩ name' path hname' hpath
    rw [hname] at hname'
    cases hname'
    rw [hread] at hpath
    cases hpath
    rw [hcwd, hscan]
    exact hmax

/-- A window of two rows needs a terminal of three lines. -/
theorem two_le_newwinRows (maxY : Nat) : 2 ≤ newwinRows maxY (maxY - 1) ↔ 3 ≤ maxY := by
  unfold newwinRows
  split <;> omega

theorem scandir_eq_some_iff {os : Os Dir} {cwd : Dir} {path : Str} :
    (∃ found, os.scandir cwd path = some found) ↔ os.opendir cwd path ≠ none := by
  rw [← Option.isSome_iff_exists, Os.scandir, Option.isSome_map, Option.isSome_iff_ne_none]

/-- The second listing, of the path `main` got for the start directory. -/
theorem leftSafe_iff {os : Os Dir} {b : Boot Dir} {p : Process Dir} {name : Str}
    (hbuff : p.mem.buffCurrDir = name) (hmax : 3 ≤ b.maxY) :
    ListDirSafe os b.left p ↔
      os.opendir (os.lookup p.cwd name).1 (os.lookup p.cwd name).2 ≠ none := by
  have hread : p.mem.read b.left.workDir = .ok name := congrArg Except.ok hbuff
  rw [listDirSafe_iff hread rfl, scandir_eq_some_iff]
  exact and_iff_right ((two_le_newwinRows _).mpr hmax)

/-- The first listing, of the directory named by `HOME`. -/
theorem listDir_right {os : Os Dir} {b : Boot Dir} {home : Str} (hhome : b.home = some home)
    {found : Listing Dir}
    (hscan : os.scandir (os.lookup b.cwd home).1 (os.lookup b.cwd home).2 = some found) :
    (found.entries.all fun e => (os.lstat (os.enter (os.lookup b.cwd home).1
        (os.lookup b.cwd home).2) e.dName).isSome) = true ∧
      (∃ w p, listDir os b.right (b.proc os) = .ok (0, w, p) ∧
        p.cwd = os.enter (os.lookup b.cwd home).1 (os.lookup b.cwd home).2 ∧
        p.mem.buffCurrDir = os.cwdString b.cwd) ∨
    ¬ (found.entries.all fun e => (os.lstat (os.enter (os.lookup b.cwd home).1
        (os.lookup b.cwd home).2) e.dName).isSome) = true ∧
      listDir os b.right (b.proc os) = .error .exit := by
  have hread : (b.proc os).mem.read b.right.workDir = .ok home := by
    show orUndefined b.home = _
    rw [hhome]
    rfl
  have hcwd := locate_cwd os b.right (b.proc os) home
  have hbuff : (locate os b.right (b.proc os) home).mem.buffCurrDir = os.cwdString b.cwd := by
    unfold locate
    split <;> rfl
  have hlist := listDir_of_found hread (by rw [hcwd]; exact hscan)
  rw [lstatAll, hcwd] at hlist
  split at hlist
  · exact Or.inl ⟨‹_›, _, _, hlist, rfl, hbuff⟩
  · exact Or.inr ⟨‹_›, hlist⟩

/-- **Start-up** is safe exactly when both listings succeed, on a terminal of three lines or more:
    the right panel is listed first, and the left one where that has led. -/
theorem startUpSafe_iff (osR osL : Os Dir) (b : Boot Dir) :
    StartUpSafe osR osL b ↔ StartsListed osR osL b := by
  have hread : (b.proc osR).mem.read b.right.workDir = orUndefined b.home := rfl
  rw [StartUpSafe, StartsListed]
  cases hhome : b.home with
  -- without a home the path is undefined, and the program stops before it lists
  | none =>
    rw [hhome] at hread
    refine iff_of_true ⟨fun name path hname => ?_, fun ret right p hlist => ?_⟩
      fun _ h => by cases h
    · rw [hread] at hname
      cases hname
    · rw [listDir, hread] at hlist
      cases hlist
  | some home =>
    -- with a home the right panel is listed first, and the left one from where that leads
    rw [hhome] at hread
    rw [listDirSafe_iff hread rfl]
    constructor
    · rintro ⟨⟨hmax, found, hscan⟩, hleft⟩ _ ⟨⟩
      rw [Boot.right, initMainWin, two_le_newwinRows] at hmax
      refine ⟨hmax, found, hscan, fun cwd hcwd hall => ?_⟩
      subst hcwd
      rcases listDir_right hhome hscan with ⟨_, w, p, hlist, hcwd, hbuff⟩ | ⟨hnot, _⟩
      · rw [← hcwd]
        exact (leftSafe_iff hbuff hmax).mp (hleft 0 w p hlist)
      · exact absurd hall hnot
    · intro hlisted
      obtain ⟨hmax, found, hscan, hleft⟩ := hlisted home rfl
      refine ⟨⟨(two_le_newwinRows _).mpr hmax, found, hscan⟩, fun ret right p hlist => ?_⟩
      rcases listDir_right hhome hscan with ⟨hall, w, p', hlist', hcwd, hbuff⟩ | ⟨_, hexit⟩
      · rw [hlist'] at hlist
        cases hlist
        rw [leftSafe_iff hbuff hmax, hcwd]
        exact hleft _ rfl hall
      · rw [hexit] at hlist
        cases hlist

/-! ### Sound counters stay sound -/

/-- A panel that `ListDir` opened and that was drawn then. -/
theorem listDir_sound {os : Os Dir} {win w w' : Panel} {p p' : Process Dir}
    (h : listDir os win p = .ok (0, w, p')) (hdraw : renderingListDir os p' w = .ok w')
    (hmax : 2 ≤ win.maxY) (hlt : win.maxY < 2 ^ 32) : w'.Sound p'.mem := by
  obtain ⟨hl, hb, he, hy, ho⟩ := listDir_listed h
  have hrows : w.maxY = w.size.toNat + 2 ∧ w.maxY < 2 ^ 32 := by
    obtain ⟨_, _, _, _, _, _, ⟨_, hret, _⟩ | ⟨_, _, _, _, _, _, rfl, _⟩⟩ := listDir_cases h
    · exact absurd hret (by decide)
    · have htwo : (2 : UInt32).toNat = 2 := rfl
      have hm : (UInt32.ofNat win.maxY).toNat = win.maxY := toNat_ofNat hlt
      refine ⟨?_, hlt⟩
      show win.maxY = (UInt32.ofNat win.maxY - 2).toNat + 2
      rw [toNat_diff (by omega), hm, htwo]
      omega
  obtain ⟨d, hd, _, hdrawn⟩ := renderingListDir_spec os p' w hl
  rw [hd] at hdraw
  cases hdraw
  exact ⟨hrows.1, hrows.2, hl, hdrawn, .rewound hy ho hb he⟩

/-- Both panels are sound. -/
def State.Sound (s : State Dir) : Prop := ∀ i, (s.win i).Sound s.proc.mem

namespace Panel.Sound

variable {win w : Panel} {mem mem' : Memory Dir}

theorem mono (h : win.Sound mem) (hk : mem.Keeps mem') : win.Sound mem' :=
  ⟨h.rows, h.rows_lt, h.listed.mono hk, h.drawn, h.counters⟩

/-- Where `work_dir` points and which panel is active do not matter. -/
theorem congr (h : win.Sound mem) (ref : StrRef) (active : Bool) :
    ({ win with workDir := ref, active := active } : Panel).Sound mem :=
  ⟨h.rows, h.rows_lt, h.listed, h.drawn, h.counters.congr ref active win.drawn⟩

/-- A panel drawn with new counters. -/
theorem of_redraw {os : Os Dir} {p : Process Dir} {v : Panel} (h : win.Sound p.mem)
    (hw : renderingListDir os p v = .ok w) (hsame : win.SameListing v) (hc : v.Counters) :
    w.Sound p.mem := by
  have hl := hsame.listed h.listed
  obtain ⟨d, hd, _, hdrawn⟩ := renderingListDir_spec os p v hl
  rw [hd] at hw
  cases hw
  refine ⟨?_, ?_, hl, hdrawn, hc.congr v.workDir v.active (some d)⟩
  · show v.maxY = v.size.toNat + 2
    rw [hsame.maxY, hsame.size]
    exact h.rows
  · show v.maxY < 2 ^ 32
    rw [hsame.maxY]
    exact h.rows_lt

/-- A move of the cursor of a window of two rows or more. -/
theorem moved {os : Os Dir} {p : Process Dir} {move : Process Dir → Panel → Except Stop Panel}
    (h : win.Sound p.mem) (hmove : move = keyUp os ∨ move = keyDown os)
    (hn : 2 ≤ win.dirNum.toNat) (hs : 2 ≤ win.size.toNat) (hw : move p win = .ok w) :
    w.Sound p.mem := by
  obtain ⟨c, hc, hend⟩ := h.counters.exists_cursor hn hs
  have key : ∃ c' : ScrollCursor win.dirNum.toNat win.size.toNat, MovesTo (move p win) win c' := by
    rcases hmove with rfl | rfl
    · exact ⟨_, keyUp_movesTo os hc h.listed h.drawn⟩
    · exact ⟨_, keyDown_movesTo os hc h.listed h.drawn⟩
  obtain ⟨c', w', hw', hsame, hc', hd'⟩ := key
  rw [hw] at hw'
  cases hw'
  refine ⟨?_, ?_, hsame.listed h.listed, hd', .cursor c' hc' fun hgt => ?_⟩
  · rw [hsame.maxY, hsame.size]
    exact h.rows
  · rw [hsame.maxY]
    exact h.rows_lt
  · obtain ⟨lag, hlag, hlagEnd⟩ := hend hgt
    obtain he | he | ⟨he, _⟩ := move_listEnd _ hmove hw (gt_iff.mpr hgt) hlagEnd
    · exact ⟨lag, hlag, he⟩
    · exact ⟨0, Or.inl rfl, (add_zero _).trans he⟩
    · exact ⟨1, Or.inr rfl, he⟩

/-- `KEY_DOWN` keeps the counters sound. -/
theorem keyDown {os : Os Dir} {p : Process Dir} (h : win.Sound p.mem)
    (hn : 2 ≤ win.dirNum.toNat) (hs : 1 ≤ win.size.toNat) (hw : keyDown os p win = .ok w) :
    w.Sound p.mem := by
  rcases Nat.lt_or_ge win.size.toNat 2 with hs1 | hs2
  · -- in a window of one row every move leaves the window
    have hsize : win.size.toNat = 1 := by omega
    have hgt : win.size.toNat < win.dirNum.toNat := by omega
    have hcases := h.counters.oneRow_cases hsize
    have hlt := h.counters.selectedObj_lt_iff.mpr hn
    have hn32 := win.dirNum.toNat_lt
    have hy : (win.y + 1).toNat = win.y.toNat + 1 := toNat_incr (by omega)
    have ho : (win.selectedObj + 1).toNat = win.selectedObj.toNat + 1 := toNat_incr (by omega)
    have hone : (1 : UInt32).toNat = 1 := rfl
    rw [FileManager.keyDown, bind_eq_ok] at hw
    obtain ⟨_, _, hw⟩ := hw
    by_cases hlast : win.selectedObj.toNat + 1 < win.dirNum.toNat
    · rw [coordControl_scrollDown (by omega) (by omega) (by omega)] at hw
      refine h.of_redraw hw ⟨rfl, rfl, rfl, rfl, rfl, rfl⟩ (.oneRow hsize ?_ ?_ ?_ ?_)
      · show (win.size - 1).toNat = 0
        rw [toNat_diff (by omega)]
        omega
      · show 1 ≤ (win.listBegin + 1).toNat
        rw [toNat_incr (by omega)]
        omega
      · show (win.listBegin + 1).toNat ≤ (win.selectedObj + 1).toNat
        rw [toNat_incr (by omega)]
        omega
      · show (win.selectedObj + 1).toNat < win.dirNum.toNat
        omega
    · rw [coordControl_wrapDown (by omega) (by omega) (by omega)] at hw
      exact h.of_redraw hw ⟨rfl, rfl, rfl, rfl, rfl, rfl⟩ (.rewound rfl rfl rfl rfl)
  · exact h.moved (Or.inr rfl) hn hs2 hw

/-- `KEY_UP` keeps the counters sound. -/
theorem keyUp {os : Os Dir} {p : Process Dir} (h : win.Sound p.mem)
    (hn : 2 ≤ win.dirNum.toNat) (hs : 1 ≤ win.size.toNat)
    (hrow : win.size.toNat = 1 → win.listBegin.toNat = 0) (hw : keyUp os p win = .ok w) :
    w.Sound p.mem := by
  rcases Nat.lt_or_ge win.size.toNat 2 with hs1 | hs2
  · -- a window of one row that has not moved goes to the end of the directory
    have hsize : win.size.toNat = 1 := by omega
    have hgt : win.size.toNat < win.dirNum.toNat := by omega
    have hcases := h.counters.oneRow_cases hsize
    have hbegin := hrow hsize
    have hone : (1 : UInt32).toNat = 1 := rfl
    have hy : (win.y - 1).toNat = win.y.toNat - 1 := toNat_diff (by omega)
    have ho : (win.selectedObj - 1).toNat = win.selectedObj.toNat - 1 := toNat_diff (by omega)
    have hlast : (win.dirNum - 1).toNat = win.dirNum.toNat - 1 := toNat_diff (by omega)
    have htop : (win.dirNum - win.size).toNat = win.dirNum.toNat - win.size.toNat :=
      toNat_diff (by omega)
    rw [FileManager.keyUp, bind_eq_ok] at hw
    obtain ⟨_, _, hw⟩ := hw
    rw [coordControl_wrapUp (by omega) (by omega) (by omega) (by omega)] at hw
    refine h.of_redraw hw ⟨rfl, rfl, rfl, rfl, rfl, rfl⟩ (.oneRow hsize ?_ ?_ ?_ ?_)
    · show (win.size - 1).toNat = 0
      rw [toNat_diff (by omega)]
      omega
    · show 1 ≤ (win.dirNum - win.size).toNat
      omega
    · show (win.dirNum - win.size).toNat ≤ (win.dirNum - 1).toNat
      omega
    · show (win.dirNum - 1).toNat < win.dirNum.toNat
      omega
  · exact h.moved (Or.inl rfl) hn hs2 hw

end Panel.Sound

namespace State.Sound

variable {s s' : State Dir}

/-- A panel and a memory replaced by sound ones. -/
theorem update {w : Panel} {p : Process Dir} (h : s.Sound) (hk : s.proc.mem.Keeps p.mem) (i : Side)
    (hw : w.Sound p.mem) : (s.update i w p).Sound :=
  State.forall_update s i w p (P := Panel.Sound) Panel.Sound.mono h hk hw

/-- `ENTER` keeps the counters sound. -/
theorem enter {os : Os Dir} (h : s.Sound) (hk : handleKey os s .ENTER = .ok s') : s'.Sound := by
  have hactive := h s.side
  rcases enter_cases hk with ⟨ref, ret, w, p, _, hlist, hcase⟩ | ⟨name, w, hw, rfl⟩
  · have hkeeps := listDir_keeps hlist
    rcases hcase with ⟨hret, rfl⟩ | ⟨w', hw', hret, rfl⟩
    · refine h.update hkeeps _ ?_
      obtain ⟨_, rfl, _⟩ | ⟨hzero, _⟩ := listDir_ret hlist
      · exact (hactive.mono hkeeps).congr ref (s.win s.side).active
      · omega
    · obtain ⟨hfailed, _⟩ | ⟨rfl, _⟩ := listDir_ret hlist
      · exact absurd hfailed hret
      · rw [listDir_select hlist hret] at hw'
        have hrows := hactive.rows
        exact h.update hkeeps _ (listDir_sound hlist hw' (by show 2 ≤ (s.win s.side).maxY; omega)
          hactive.rows_lt)
  · have hkeeps : s.proc.mem.Keeps (tryExec os name s.proc).2.mem := by
      rw [mem_tryExec]
      exact Memory.Keeps.refl _
    exact h.update hkeeps _ ((hactive.mono hkeeps).of_redraw hw ⟨rfl, rfl, rfl, rfl, rfl, rfl⟩
      hactive.counters)

/-- Every key that fits keeps the counters sound. -/
theorem handleKey {os : Os Dir} {k : Key} (h : s.Sound) (hfits : KeyFitsListing s (k, os))
    (hk : handleKey os s k = .ok s') : s'.Sound := by
  cases k with
  | KEY_UP =>
    obtain ⟨w, hw, rfl⟩ := moveCursor_cases hk
    obtain ⟨hn, hs, hrow⟩ := hfits
    exact h.update (Memory.Keeps.refl _) _ ((h s.side).keyUp hn hs hrow hw)
  | KEY_DOWN =>
    obtain ⟨w, hw, rfl⟩ := moveCursor_cases hk
    obtain ⟨hn, hs⟩ := hfits
    exact h.update (Memory.Keeps.refl _) _ ((h s.side).keyDown hn hs hw)
  | TAB =>
    obtain ⟨path, _, rfl⟩ := tab_cases hk
    intro i
    cases i with
    | left => exact (h .left).congr s.leftWin.workDir (!s.leftWin.active)
    | right => exact h .right
  | ENTER => exact h.enter hk

end State.Sound

/-- A first listing that is safe leaves sound counters. -/
theorem first_sound {os : Os Dir} {win w w' : Panel} {p p' : Process Dir} {ret : Int}
    (h : listDir os win p = .ok (ret, w, p')) (hdraw : renderingListDir os p' w = .ok w')
    (hnone : win.nameList = none) (hsafe : ListDirSafe os win p) (hlt : win.maxY < 2 ^ 32) :
    w'.Sound p'.mem := by
  cases listDir_first h hnone
  obtain ⟨name, _, _, hname, _⟩ := listDir_cases h
  exact listDir_sound h hdraw ((listDirSafe_iff hname hnone).mp hsafe).1 hlt

/-- Start-up that is safe leaves sound counters. -/
theorem start_sound {osR osL : Os Dir} {b : Boot Dir} {s : State Dir}
    (h : start osR osL b = .ok s) (hsafe : StartUpSafe osR osL b) : s.Sound := by
  obtain ⟨retR, right, pR, dR, retL, left, pL, dL, hlistR, hright, hlistL, hleft, rfl⟩ :=
    start_cases h
  have hlt : newwinRows b.maxY (b.maxY - 1) < 2 ^ 32 := by
    have hmax := b.maxY_lt
    unfold newwinRows
    split <;> omega
  intro i
  cases i with
  | left => exact first_sound hlistL hleft rfl (hsafe.2 retR right pR hlistR) hlt
  | right => exact (first_sound hlistR hright rfl hsafe.1 hlt).mono (listDir_keeps hlistL)

/-! ### Runs -/

/-- **Every access to a listing is valid** and no subtraction wraps in a run if and only if both
    listings of start-up succeed and every key fits the listing of its panel. -/
theorem accessSafe_iff (osR osL : Os Dir) (b : Boot Dir) (ls : List (Key × Os Dir)) :
    (StartUpSafe osR osL b ∧ ∀ s, start osR osL b = .ok s → Along State.next KeySafe s ls) ↔
      StartsListed osR osL b ∧
        ∀ s, start osR osL b = .ok s → Along State.next KeyFitsListing s ls := by
  rw [← startUpSafe_iff]
  refine and_congr_right fun hsafe => forall₂_congr fun s hs => ?_
  refine along_congr (I := State.Sound) (P := fun _ _ => True) (fun s l t hI _ hl ht => ?_)
    (fun s l hI _ => keySafe_iff (hI s.side) l) (start_sound hs hsafe)
    (along_of_forall (fun _ _ => trivial) _ ls)
  exact hI.handleKey ((keySafe_iff (hI s.side) l).mp hl) (State.next_eq_some.mp ht)

/-- A system without the directory `/x`. -/
def noHomeDir : Os Unit :=
  { singleDir with opendir := fun _ path => if path = [47, 120] then none else some () }

/-- With `HOME=/x` the first listing fails, and the status bar reads a listing that is not there. -/
theorem not_accessSafe :
    ¬ ∀ (Dir : Type) (osR osL : Os Dir) (b : Boot Dir) (ls : List (Key × Os Dir)),
      StartUpSafe osR osL b ∧ ∀ s, start osR osL b = .ok s → Along State.next KeySafe s ls := by
  intro h
  obtain ⟨⟨hright, _⟩, _⟩ := h Unit noHomeDir singleDir (.terminal () [47, 120]) []
  obtain ⟨_, found, hscan⟩ := (@listDirSafe_iff _ _ _ _ [47, 120] rfl rfl).mp hright
  cases hscan

end EltexHomeworks.FileManager
