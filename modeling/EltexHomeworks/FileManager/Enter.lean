import EltexHomeworks.FileManager.CursorRing

namespace EltexHomeworks.FileManager

open EltexHomeworks.Lib

/-!
# File manager — `ENTER` on an entry that is opened

Both copies of the handler point `work_dir` at the selected name, call `ListDir` and draw the panel
(`openSelected`).  `openSelected_cases` follows them through every outcome of the system calls, and
`enter_outcomes` sums up what is then installed, and what is kept when the entry cannot be opened.
-/

variable {Dir : Type}

/-- What both copies of the `ENTER` handler do with an entry they open by `ListDir`. -/
def openSelected (os : Os Dir) (s : State Dir) (i : Side) : Except Stop (State Dir) := do
  let ref ← selectedName s.proc.mem (s.win i)
  let (ret, w, proc) ← listDir os { s.win i with workDir := ref } s.proc
  if ret = -1 then return s.update i w proc
  else
    let w ← renderingListDir os proc { w with selectedObj := 1 }
    return s.update i w proc

/-- The entry the cursor is on is an executable. -/
def State.SelectsExec (s : State Dir) : Prop :=
  ∃ e, s.proc.mem.entry (s.win s.side).nameList (s.win s.side).selectedObj.toNat = .ok e ∧
    e.dType = DT_EXEC

/-- `ENTER` on an entry that is opened: any on the right, any but an executable on the left. -/
theorem handleKey_enter {os : Os Dir} {s : State Dir} (h : s.side = .left → ¬ s.SelectsExec) :
    handleKey os s .ENTER = openSelected os s s.side := by
  unfold handleKey
  by_cases ha : s.leftWin.active = true
  · have hside : s.side = .left := by rw [State.side, if_pos ha]
    replace h := h hside
    rw [State.SelectsExec, hside] at h
    rw [if_pos ha, hside, enterLeft]
    cases he : s.proc.mem.entry s.leftWin.nameList s.leftWin.selectedObj.toNat with
    | error =>
      rw [openSelected, selectedName]
      show _ = ((s.proc.mem.entry s.leftWin.nameList s.leftWin.selectedObj.toNat >>= _) >>= _)
      rw [he]
      rfl
    | ok e =>
      have hx : ¬ e.dType = DT_EXEC := fun hx => h ⟨e, he, hx⟩
      show (if e.dType = DT_EXEC then _ else _) = _
      rw [if_neg hx]
      rfl
  · have hside : s.side = .right := by rw [State.side, if_neg ha]
    rw [if_neg ha, hside]
    rfl

/-! ### Through the system calls -/

/-- The process before `scandir`: only the name of the entry may have changed, to the path. -/
theorem locate_spec (os : Os Dir) (win : Panel) {p : Process Dir} {id i : Nat} {e : Dirent}
    (hw : win.workDir = .dName id i) (he : p.mem.entry (some id) i = .ok e) :
    (locate os win p e.dName).cwd = (os.lookup p.cwd e.dName).1 ∧
      (locate os win p e.dName).mem.entry (some id) i =
        .ok { e with dName := (os.lookup p.cwd e.dName).2 } := by
  refine ⟨locate_cwd os win p e.dName, ?_⟩
  rw [locate, Os.lookup]
  by_cases hdot : e.dName = dotDot
  · rw [if_pos hdot, if_pos hdot]
    show (p.mem.strcpy win.workDir _).entry (some id) i = _
    rw [hw]
    exact Memory.entry_strcpy_self he
  · rw [if_neg hdot, if_neg hdot]
    exact he

/-- The panel `ListDir` gets, with the selected name as its `work_dir`. -/
def Panel.target (win : Panel) (id : Nat) : Panel :=
  { win with workDir := .dName id win.selectedObj.toNat }

/-- The panel of a directory of `k` entries, the `id'`-th that was read, as it is drawn. -/
def Panel.installed (win : Panel) (k id' : Nat) (d : Drawing) : Panel :=
  { win.rewind (UInt32.ofNat k) with nameList := some id', drawn := some d }

/-- **`ENTER` through the outcomes of its system calls.** -/
theorem openSelected_cases (os : Os Dir) {s : State Dir} {i : Side} {e : Dirent}
    (he : s.proc.mem.entry (s.win i).nameList (s.win i).selectedObj.toNat = .ok e) :
    ∃ id p, (s.win i).nameList = some id ∧ p = locate os ((s.win i).target id) s.proc e.dName ∧
      (os.scandir p.cwd (os.lookup s.proc.cwd e.dName).2 = none ∧
          openSelected os s i = .ok (s.update i ((s.win i).target id) p) ∨
        ∃ found, os.scandir p.cwd (os.lookup s.proc.cwd e.dName).2 = some found ∧
          (lstatAll os (os.enter p.cwd (os.lookup s.proc.cwd e.dName).2) found = .error .exit ∧
              openSelected os s i = .error .exit ∨
            ∃ list d,
              lstatAll os (os.enter p.cwd (os.lookup s.proc.cwd e.dName).2) found = .ok list ∧
              openSelected os s i = .ok (s.update i
                (((s.win i).target id).installed found.entries.length p.mem.lists.length d)
                { p with
                  cwd := os.enter p.cwd (os.lookup s.proc.cwd e.dName).2
                  mem := p.mem.alloc list }))) := by
  obtain ⟨id, hid, hname, hread⟩ := selectedName_of_entry he
  rw [hid] at he
  obtain ⟨_, hentry⟩ := locate_spec os ((s.win i).target id) rfl he
  rw [← hid] at hentry
  have hfound := fun found =>
    @listDir_of_found Dir os ((s.win i).target id) s.proc e.dName found hread
  have hnone := @listDir_of_none Dir os ((s.win i).target id) s.proc e.dName _ hread hentry
  have hopen : openSelected os s i = listDir os ((s.win i).target id) s.proc >>= fun r =>
      if r.1 = -1 then .ok (s.update i r.2.1 r.2.2)
      else renderingListDir os r.2.2 { r.2.1 with selectedObj := 1 } >>= fun w =>
        .ok (s.update i w r.2.2) := by
    -- what `scandir` and `lstat` return decides which way `ENTER` goes
    rw [openSelected, hname]
    rfl
  refine ⟨id, _, hid, rfl, ?_⟩
  generalize hp : locate os ((s.win i).target id) s.proc e.dName = p at hfound hnone ⊢
  generalize (os.lookup s.proc.cwd e.dName).2 = path at hfound hnone ⊢
  cases hscan : os.scandir p.cwd path with
  | none =>
    refine .inl ⟨rfl, ?_⟩
    rw [hopen, hnone hscan]
    rfl
  | some found =>
    refine .inr ⟨found, rfl, ?_⟩
    have hlist := hfound found hscan
    cases hstat : lstatAll os (os.enter p.cwd path) found with
    | error stop =>
      rw [hstat] at hlist
      cases exit_of_lstatAll hstat
      refine .inl ⟨rfl, ?_⟩
      rw [hopen, hlist]
      rfl
    | ok list =>
      -- the listing is there, so drawing it does not fail
      rw [hstat, Except.map] at hlist
      obtain ⟨d, hd, _⟩ := renderingListDir_spec os _ _ (listDir_listed hlist).1
      refine .inr ⟨list, d, rfl, ?_⟩
      rw [hopen, hlist]
      have hret : ¬ (0 : Int) = -1 := by decide
      refine bind_eq_ok.mpr ⟨_, rfl, (if_neg hret).trans ?_⟩
      exact bind_eq_ok.mpr ⟨_, hd, rfl⟩

/-! ### What is installed, what is kept -/

/-- The listing and the counters of the panel are as they were. -/
structure Panel.SameView (w w' : Panel) : Prop where
  nameList : w'.nameList = w.nameList
  dirNum : w'.dirNum = w.dirNum
  listBegin : w'.listBegin = w.listBegin
  listEnd : w'.listEnd = w.listEnd
  y : w'.y = w.y
  selectedObj : w'.selectedObj = w.selectedObj

/-- Listing and counters of the panel are those of the directory `found`, opened as `path`. -/
structure State.Installs (s : State Dir) (i : Side) (found : Listing Dir) (path : Str) : Prop where
  listing : ∃ l, s.proc.mem.list (s.win i).nameList = .ok l ∧ l.dir = found.dir ∧
    l.names = found.names
  dirNum : (s.win i).dirNum.toNat = found.entries.length
  listBegin : (s.win i).listBegin = 0
  listEnd : (s.win i).listEnd = UInt32.ofNat (s.win i).maxY - 2
  y : (s.win i).y = 1
  selectedObj : (s.win i).selectedObj = 1
  workDir : s.proc.mem.read (s.win i).workDir = .ok path

/-- **What `ENTER` does** with an entry that is opened by `ListDir`.  If `scandir` fails, the panel
    keeps its listing and counters, and for an entry other than `..` the names and the working
    directory are kept too.  If it succeeds and every `lstat` does, the new directory is installed,
    and the process is where `chdir` led it; otherwise the program exits. -/
theorem enter_outcomes (os : Os Dir) {s : State Dir} {e : Dirent}
    (he : s.proc.mem.entry (s.win s.side).nameList (s.win s.side).selectedObj.toNat = .ok e)
    (hx : s.side = .left → e.dType ≠ DT_EXEC) :
    match os.scandir (os.lookup s.proc.cwd e.dName).1 (os.lookup s.proc.cwd e.dName).2 with
    | none => ∃ s', handleKey os s .ENTER = .ok s' ∧ (s.win s.side).SameView (s'.win s.side) ∧
        (e.dName ≠ dotDot → s'.proc = s.proc) ∧ ∀ j ≠ s.side, s'.win j = s.win j
    | some found =>
      if found.entries.all fun e' =>
          (os.lstat (os.enter (os.lookup s.proc.cwd e.dName).1 (os.lookup s.proc.cwd e.dName).2)
            e'.dName).isSome
      then ∃ s', handleKey os s .ENTER = .ok s' ∧
        s'.Installs s.side found (os.lookup s.proc.cwd e.dName).2 ∧
        (∀ d, os.chdir (os.lookup s.proc.cwd e.dName).1 (os.lookup s.proc.cwd e.dName).2 = some d →
          s'.proc.cwd = d) ∧ ∀ j ≠ s.side, s'.win j = s.win j
      else handleKey os s .ENTER = .error .exit := by
  -- an entry that is opened is none that is run
  have hexec : s.side = .left → ¬ s.SelectsExec := by
    rintro hside ⟨e', he', hx'⟩
    rw [he] at he'
    cases he'
    exact hx hside hx'
  rw [handleKey_enter hexec]
  obtain ⟨id, p, hid, hp, hcases⟩ := openSelected_cases os he
  rw [hid] at he
  obtain ⟨hcwd, hentry⟩ := locate_spec os ((s.win s.side).target id) rfl he
  rw [← hp] at hcwd hentry
  rw [← hcwd]
  generalize (os.lookup s.proc.cwd e.dName).2 = path at hentry hcases ⊢
  rcases hcases with ⟨hscan, hopen⟩ | ⟨found, hscan, ⟨hstat, hopen⟩ | ⟨list, d, hstat, hopen⟩⟩
  · -- `scandir` fails: the panel is as it was, and only `..` moves the process
    rw [hscan]
    refine ⟨_, hopen, ?_, fun hdot => ?_, fun j hj => s.win_update_of_ne _ _ _ _ hj⟩
    · rw [State.win_update_self]
      exact ⟨rfl, rfl, rfl, rfl, rfl, rfl⟩
    · rw [State.proc_update, hp, locate, if_neg hdot]
  · -- one `lstat` fails, and the program exits
    rw [hscan]
    dsimp only
    unfold lstatAll at hstat
    split at hstat
    · cases hstat
    · rename_i hall
      rw [if_neg hall]
      exact hopen
  · -- all succeed, and the new list takes the place of the old one
    rw [hscan]
    dsimp only
    have hall := hstat
    unfold lstatAll at hall
    split at hall
    case isFalse => cases hall
    rename_i hall'
    rw [if_pos hall']
    obtain ⟨hdir, hnames⟩ := lstatAll_keeps hstat
    refine ⟨_, hopen, ⟨?_, ?_, ?_, ?_, ?_, ?_, ?_⟩, fun d hd => ?_,
      fun j hj => s.win_update_of_ne _ _ _ _ hj⟩
    all_goals simp only [State.win_update_self, State.proc_update]
    · exact ⟨list, Memory.list_alloc _ _, hdir, hnames⟩
    · exact toNat_ofNat (by have := found.length_lt; omega)
    · rfl
    · rfl
    · rfl
    · rfl
    · exact Memory.read_alloc list (Memory.read_of_entry hentry)
    · show os.enter p.cwd path = d
      rw [Os.enter, hd]
      rfl

/-- `ENTER` on `..` installs the parent directory. -/
theorem enter_outcomes_dotDot :
    ∃ s s' found, start singleDir singleDir singleBoot = .ok s ∧
      handleKey singleDir s .ENTER = .ok s' ∧ s'.Installs s.side found [47] := by
  have hstart : ∃ s e, start singleDir singleDir singleBoot = .ok s ∧
      s.proc.mem.entry (s.win s.side).nameList (s.win s.side).selectedObj.toNat = .ok e ∧
      e.dType = DT_DIR ∧ e.dName = dotDot := ⟨_, _, rfl, rfl, rfl, rfl⟩
  obtain ⟨s, e, hs, he, hdir, hname⟩ := hstart
  have henter := enter_outcomes singleDir he fun _ => by rw [hdir]; decide
  rw [hname] at henter
  obtain ⟨s', hs', hinst, _⟩ := henter
  exact ⟨s, s', _, hs, hs', hinst⟩

/-- A system in which an entry is gone before its `lstat`. -/
def vanishedDir : Os Unit := { singleDir with lstat := fun _ _ => none }

/-- After a failed `lstat` there is no state at all: the program exits. -/
theorem enter_not_atomic :
    ¬ ∀ (Dir : Type) (os : Os Dir) (s : State Dir) (e : Dirent),
      s.proc.mem.entry (s.win s.side).nameList (s.win s.side).selectedObj.toNat = .ok e →
      (s.side = .left → e.dType ≠ DT_EXEC) →
      ∃ s', handleKey os s .ENTER = .ok s' ∧
        ((∃ cwd path found, os.scandir cwd path = some found ∧ s'.Installs s.side found path ∧
            s'.proc.cwd = found.dir) ∨
          (s.win s.side).SameView (s'.win s.side) ∧
            (s'.win s.side).workDir = (s.win s.side).workDir ∧ s'.proc = s.proc) := by
  intro h
  have hstart : ∃ s e, start singleDir singleDir singleBoot = .ok s ∧
      s.proc.mem.entry (s.win s.side).nameList (s.win s.side).selectedObj.toNat = .ok e ∧
      e.dType = DT_DIR ∧ handleKey vanishedDir s .ENTER = .error .exit := ⟨_, _, rfl, rfl, rfl, rfl⟩
  obtain ⟨s, e, _, he, hdir, hexit⟩ := hstart
  obtain ⟨s', hs', _⟩ := h Unit vanishedDir s e he fun _ => by rw [hdir]; decide
  rw [hexit] at hs'
  cases hs'

end EltexHomeworks.FileManager
