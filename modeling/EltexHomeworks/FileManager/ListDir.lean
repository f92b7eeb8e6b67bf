import EltexHomeworks.FileManager.Panel

namespace EltexHomeworks.FileManager

open EltexHomeworks.Lib

/-!
# File manager — opening a directory, running a program

`listDir` is the only function that changes the directory of the process and the listing of a
panel.  Its caller has already pointed `work_dir` at the name to open; for `..` the name itself
is overwritten by the absolute path of the parent directory.
-/

variable {Dir : Type}

/-- The name `..`. -/
def dotDot : Str := [46, 46]

/-- The branch of `ListDir` for `..`: up by `chdir`, then the path `getcwd` gives is copied over
    the string `work_dir` points at. -/
def climb (os : Os Dir) (win : Panel) (p : Process Dir) : Process Dir :=
  let cwd := os.enter p.cwd dotDot
  { p with cwd := cwd, mem := p.mem.strcpy win.workDir (os.cwdString cwd) }

/-- The type `ListDir` gives an entry whose `lstat` succeeded with mode `mode`. -/
def typeOfMode (mode : UInt32) (old : UInt8) : UInt8 :=
  if S_ISDIR mode then DT_DIR
  else if S_ISREG mode then (if S_ISEXEC mode then DT_EXEC else DT_REG)
  else old

/-- The `lstat` loop of `ListDir`: it exits at the first entry whose `lstat` fails. -/
def lstatAll (os : Os Dir) (cwd : Dir) (l : Listing Dir) : Except Stop (Listing Dir) :=
  if l.entries.all fun e => (os.lstat cwd e.dName).isSome then
    .ok (l.map fun e => { e with dType := typeOfMode ((os.lstat cwd e.dName).getD 0) e.dType })
  else .error .exit

/-- The `lstat` loop changes the types of the entries only. -/
theorem lstatAll_keeps {os : Os Dir} {cwd : Dir} {l l' : Listing Dir}
    (h : lstatAll os cwd l = .ok l') :
    l'.dir = l.dir ∧ l'.entries.map (·.dName) = l.entries.map (·.dName) := by
  unfold lstatAll at h
  split at h
  · cases h
    exact ⟨rfl, by simp [Listing.map]⟩
  · cases h

/-- The `lstat` loop fails by exiting, when some `lstat` does. -/
theorem exit_of_lstatAll {os : Os Dir} {cwd : Dir} {l : Listing Dir} {stop : Stop}
    (h : lstatAll os cwd l = .error stop) : stop = .exit := by
  unfold lstatAll at h
  split at h
  · cases h
  · exact (Except.error.inj h).symm

/-- The panel after `ListDir` set its counters for a directory of `dirNum` entries. -/
def Panel.rewind (win : Panel) (dirNum : UInt32) : Panel :=
  { win with
    dirNum := dirNum
    size := UInt32.ofNat win.maxY - 2
    listBegin := 0
    listEnd := UInt32.ofNat win.maxY - 2
    y := 1
    x := 1
    selectedObj := 1 }

/-- `ListDir`: its result, the panel and the process after it.  The branch for `..` changes the
    working directory before `scandir`, and stays in effect when `scandir` fails. -/
def listDir (os : Os Dir) (win : Panel) (p : Process Dir) :
    Except Stop (Int × Panel × Process Dir) := do
  let name ← p.mem.read win.workDir
  let p := if name = dotDot then climb os win p else p
  let path ← p.mem.read win.workDir
  match os.scandir p.cwd path with
  | none =>
    -- the status bar names the entry that could not be opened
    let _ ← p.mem.entry win.nameList win.selectedObj.toNat
    return (-1, win, p)
  | some found =>
    let cwd := os.enter p.cwd path
    let list ← lstatAll os cwd found
    let win := { win.rewind (UInt32.ofNat found.entries.length) with
      nameList := some p.mem.lists.length }
    return (0, win, { p with cwd := cwd, mem := p.mem.alloc list })

/-- The process before `scandir`, for the name that `work_dir` points at. -/
def locate (os : Os Dir) (win : Panel) (p : Process Dir) (name : Str) : Process Dir :=
  if name = dotDot then climb os win p else p

/-- The arrays in memory outlive the branch for `..`. -/
theorem locate_keeps (os : Os Dir) (win : Panel) (p : Process Dir) (name : Str) :
    p.mem.Keeps (locate os win p name).mem := by
  unfold locate
  split
  · exact Memory.keeps_strcpy _ _ _
  · exact Memory.Keeps.refl _

theorem length_lists_locate (os : Os Dir) (win : Panel) (p : Process Dir) (name : Str) :
    (locate os win p name).mem.lists.length = p.mem.lists.length := by
  unfold locate
  split
  · exact Memory.length_lists_strcpy _ _ _
  · rfl

/-- Where `scandir` is called for the name `name`, and with which path. -/
def Os.lookup (os : Os Dir) (cwd : Dir) (name : Str) : Dir × Str :=
  if name = dotDot then (os.enter cwd dotDot, os.cwdString (os.enter cwd dotDot)) else (cwd, name)

theorem lookup_dotDot (os : Os Dir) (cwd : Dir) :
    os.lookup cwd dotDot = (os.enter cwd dotDot, os.cwdString (os.enter cwd dotDot)) :=
  if_pos rfl

theorem locate_cwd (os : Os Dir) (win : Panel) (p : Process Dir) (name : Str) :
    (locate os win p name).cwd = (os.lookup p.cwd name).1 := by
  rw [locate, Os.lookup]
  split <;> rfl

/-- After `..` was replaced, `work_dir` reads as the path. -/
theorem locate_read (os : Os Dir) {win : Panel} {p : Process Dir} {name : Str}
    (h : p.mem.read win.workDir = .ok name) :
    (locate os win p name).mem.read win.workDir = .ok (os.lookup p.cwd name).2 := by
  rw [locate, Os.lookup]
  by_cases hdot : name = dotDot
  · rw [if_pos hdot, if_pos hdot]
    exact Memory.read_strcpy_self h
  · rw [if_neg hdot, if_neg hdot]
    exact h

/-- `ListDir`, from `scandir` on, for a `work_dir` that reads as `name`. -/
theorem listDir_of_read {os : Os Dir} {win : Panel} {p : Process Dir} {name : Str}
    (hname : p.mem.read win.workDir = .ok name) :
    listDir os win p =
      match os.scandir (locate os win p name).cwd (os.lookup p.cwd name).2 with
      | none =>
        ((locate os win p name).mem.entry win.nameList win.selectedObj.toNat).map
          fun _ => (-1, win, locate os win p name)
      | some found =>
        (lstatAll os (os.enter (locate os win p name).cwd (os.lookup p.cwd name).2) found).map
          fun list =>
            (0, { win.rewind (UInt32.ofNat found.entries.length) with
                nameList := some (locate os win p name).mem.lists.length },
              { locate os win p name with
                cwd := os.enter (locate os win p name).cwd (os.lookup p.cwd name).2
                mem := (locate os win p name).mem.alloc list }) := by
  rw [listDir, hname]
  show (locate os win p name).mem.read win.workDir >>= _ = _
  -- for `..` the path that `getcwd` gave has been written over the name
  rw [locate_read os hname]
  show (match os.scandir (locate os win p name).cwd (os.lookup p.cwd name).2 with
    | none => _ | some found => _) = _
  cases os.scandir (locate os win p name).cwd (os.lookup p.cwd name).2 with
  | none =>
    show (locate os win p name).mem.entry win.nameList win.selectedObj.toNat >>= _ = _
    cases (locate os win p name).mem.entry win.nameList win.selectedObj.toNat <;> rfl
  | some found =>
    show lstatAll os (os.enter (locate os win p name).cwd (os.lookup p.cwd name).2) found >>= _ =
      (lstatAll os (os.enter (locate os win p name).cwd (os.lookup p.cwd name).2) found).map _
    cases lstatAll os (os.enter (locate os win p name).cwd (os.lookup p.cwd name).2) found <;> rfl

/-- `ListDir` when `scandir` succeeds. -/
theorem listDir_of_found {os : Os Dir} {win : Panel} {p : Process Dir} {name : Str}
    {found : Listing Dir} (hname : p.mem.read win.workDir = .ok name)
    (hscan : os.scandir (locate os win p name).cwd (os.lookup p.cwd name).2 = some found) :
    listDir os win p =
      (lstatAll os (os.enter (locate os win p name).cwd (os.lookup p.cwd name).2) found).map
        fun list =>
          (0, { win.rewind (UInt32.ofNat found.entries.length) with
              nameList := some (locate os win p name).mem.lists.length },
            { locate os win p name with
              cwd := os.enter (locate os win p name).cwd (os.lookup p.cwd name).2
              mem := (locate os win p name).mem.alloc list }) := by
  rw [listDir_of_read hname, hscan]

/-- `ListDir` when `scandir` fails, and the selected entry can be named in the status bar. -/
theorem listDir_of_none {os : Os Dir} {win : Panel} {p : Process Dir} {name : Str} {e : Dirent}
    (hname : p.mem.read win.workDir = .ok name)
    (he : (locate os win p name).mem.entry win.nameList win.selectedObj.toNat = .ok e)
    (hscan : os.scandir (locate os win p name).cwd (os.lookup p.cwd name).2 = none) :
    listDir os win p = .ok (-1, win, locate os win p name) := by
  rw [listDir_of_read hname, hscan, he]
  rfl

/-- **What `ListDir` can do.** The process first climbs when the name is `..`; then either
    `scandir` fails, with nothing else changed, or the process enters the directory and the
    panel gets its entries, with their types and the counters rewound. -/
theorem listDir_cases {os : Os Dir} {win win' : Panel} {p p' : Process Dir} {ret : Int}
    (h : listDir os win p = .ok (ret, win', p')) :
    ∃ name path p₁, p.mem.read win.workDir = .ok name ∧
      p₁ = (if name = dotDot then climb os win p else p) ∧
      p₁.mem.read win.workDir = .ok path ∧
      ((os.opendir p₁.cwd path = none ∧ ret = -1 ∧ win' = win ∧ p' = p₁ ∧
          ∃ l, p₁.mem.list win.nameList = .ok l) ∨
        ∃ dir list, os.opendir p₁.cwd path = some dir ∧ ret = 0 ∧
          list.dir = dir ∧ list.entries.map (·.dName) = (os.readdir dir).1.map (·.dName) ∧
          win' = { win.rewind (UInt32.ofNat (os.readdir dir).1.length) with
            nameList := some p₁.mem.lists.length } ∧
          p' = { p₁ with cwd := os.enter p₁.cwd path, mem := p₁.mem.alloc list }) := by
  -- `work_dir` is read twice, for the comparison with `..` and as the path of `scandir`
  rw [listDir, bind_eq_ok] at h
  obtain ⟨name, hname, h⟩ := h
  rw [bind_eq_ok] at h
  obtain ⟨path, hpath, h⟩ := h
  refine ⟨name, path, _, hname, rfl, hpath, ?_⟩
  unfold Os.scandir at h
  cases hopen : os.opendir (if name = dotDot then climb os win p else p).cwd path with
  | none =>
    rw [hopen] at h
    simp only [Option.map_none] at h
    -- the status bar names the entry of the cursor
    rw [bind_eq_ok] at h
    obtain ⟨e, he, h⟩ := h
    cases h
    rw [Memory.entry, bind_eq_ok] at he
    obtain ⟨l, hl, _⟩ := he
    exact Or.inl ⟨rfl, rfl, rfl, rfl, l, hl⟩
  | some dir =>
    rw [hopen] at h
    simp only [Option.map_some] at h
    rw [bind_eq_ok] at h
    obtain ⟨list, hlist, h⟩ := h
    cases h
    obtain ⟨hdir, hnames⟩ := lstatAll_keeps hlist
    exact Or.inr ⟨dir, list, rfl, rfl, hdir, hnames, rfl, rfl⟩

/-- `ListDir` leaves every array in memory. -/
theorem listDir_keeps {os : Os Dir} {win w : Panel} {p p' : Process Dir} {ret : Int}
    (h : listDir os win p = .ok (ret, w, p')) : p.mem.Keeps p'.mem := by
  obtain ⟨name, _, p₁, _, hp₁, _, hcases⟩ := listDir_cases h
  have hkeeps : p.mem.Keeps p₁.mem := by
    rw [hp₁]
    exact locate_keeps os win p name
  rcases hcases with ⟨_, _, _, rfl, _⟩ | ⟨_, list, _, _, _, _, _, rfl⟩
  · exact hkeeps
  · exact hkeeps.trans (Memory.keeps_alloc _ _)

/-- `ListDir` returns -1 and leaves the panel, or 0 and gives it a new array. -/
theorem listDir_ret {os : Os Dir} {win w : Panel} {p p' : Process Dir} {ret : Int}
    (h : listDir os win p = .ok (ret, w, p')) :
    ret = -1 ∧ w = win ∧ p'.mem.lists.length = p.mem.lists.length ∨
      ret = 0 ∧ w.nameList = some p.mem.lists.length ∧
        p'.mem.lists.length = p.mem.lists.length + 1 := by
  obtain ⟨name, _, p₁, _, hp₁, _, hcases⟩ := listDir_cases h
  have hlen : p₁.mem.lists.length = p.mem.lists.length := by
    rw [hp₁]
    exact length_lists_locate os win p name
  rcases hcases with ⟨_, hret, hw, rfl, _⟩ | ⟨_, list, _, hret, _, _, rfl, rfl⟩
  · exact Or.inl ⟨hret, hw, hlen⟩
  · refine Or.inr ⟨hret, congrArg some hlen, ?_⟩
    rw [Memory.alloc, List.length_append, hlen]
    rfl

/-- `ListDir` puts the cursor on the first entry already. -/
theorem listDir_select {os : Os Dir} {win w : Panel} {p p' : Process Dir} {ret : Int}
    (h : listDir os win p = .ok (ret, w, p')) (hret : ret ≠ -1) :
    ({ w with selectedObj := 1 } : Panel) = w := by
  obtain ⟨_, _, _, _, _, _, ⟨_, hret', _⟩ | ⟨_, _, _, _, _, _, rfl, _⟩⟩ := listDir_cases h
  · exact absurd hret' hret
  · rfl

/-- The first `ListDir` of a panel does not return -1: before that it reads the old listing, which
    there is none of yet. -/
theorem listDir_first {os : Os Dir} {win w : Panel} {p p' : Process Dir} {ret : Int}
    (h : listDir os win p = .ok (ret, w, p')) (hnone : win.nameList = none) : ret = 0 := by
  obtain ⟨_, _, _, _, _, _, ⟨_, _, _, _, l, hl⟩ | ⟨_, _, _, hret, _⟩⟩ := listDir_cases h
  · rw [hnone, Memory.list_none] at hl
    cases hl
  · exact hret

/-- `ListDir` leaves the flag of its panel. -/
theorem listDir_active {os : Os Dir} {win w : Panel} {p p' : Process Dir} {ret : Int}
    (h : listDir os win p = .ok (ret, w, p')) : w.active = win.active := by
  obtain ⟨_, _, _, _, _, _, ⟨_, _, rfl, _⟩ | ⟨_, _, _, _, _, _, rfl, _⟩⟩ := listDir_cases h
  · rfl
  · rfl

/-- `TryExec`: a child runs the program in the working directory, the parent waits for it. -/
def tryExec (os : Os Dir) (pathName : Str) (p : Process Dir) : Int × Process Dir :=
  if os.fork then (0, { p with programs := p.programs ++ [(p.cwd, pathName)] })
  else (-1, p)

theorem mem_tryExec (os : Os Dir) (pathName : Str) (p : Process Dir) :
    (tryExec os pathName p).2.mem = p.mem := by
  unfold tryExec
  split <;> rfl

end EltexHomeworks.FileManager
