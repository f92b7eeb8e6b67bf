import EltexHomeworks.FileManager.ListDir

namespace EltexHomeworks.FileManager

open EltexHomeworks.Lib

/-!
# File manager — start-up, the key handlers and the running program

`start` is `main` up to its loop and `handleKey` one turn of the loop, with the code for the two
panels kept as two copies as the source has it.  `fileManager` is the program as a transition
system: each key comes with the outcomes of the system calls its handler makes.
-/

variable {Dir : Type}

/-- The state of `main` between two keys. -/
structure State (Dir : Type) where
  leftWin : Panel
  rightWin : Panel
  proc : Process Dir

/-! ### Start-up -/

/-- What `main` starts from: the terminal, the environment, and the panels as they happen to lie
    on the stack. -/
structure Boot (Dir : Type) where
  /-- The number of lines of the terminal, an `int`. -/
  maxY : Nat
  maxY_lt : maxY < 2 ^ 31
  cwd : Dir
  /-- `getenv("HOME")`. -/
  home : Option Str
  leftWin : Panel
  rightWin : Panel

/-- A terminal of 24 lines, with `HOME` set and panels of zeros. -/
def Boot.terminal (cwd : Dir) (home : Str) : Boot Dir where
  maxY := 24
  maxY_lt := by decide
  cwd := cwd
  home := some home
  leftWin := ⟨0, 0, 0, 0, 0, 0, 0, 0, none, .home, false, none⟩
  rightWin := ⟨0, 0, 0, 0, 0, 0, 0, 0, none, .home, false, none⟩

/-- The rows of `newwin(nlines, …, 0, …)` on a terminal of `lines` lines: all for `nlines = 0`. -/
def newwinRows (lines nlines : Nat) : Nat := if nlines = 0 then lines else nlines

/-- `Init_main_win`. -/
def initMainWin (win : Panel) (maxY : Nat) : Panel :=
  { win with maxY := newwinRows maxY (maxY - 1), drawn := none, nameList := none }

/-- `main` up to its loop; `osR` and `osL` are the outcomes of the calls made for the two
    listings. -/
def start (osR osL : Os Dir) (b : Boot Dir) : Except Stop (State Dir) := do
  let left := { initMainWin b.leftWin b.maxY with active := true, workDir := .buffCurrDir }
  let right := { initMainWin b.rightWin b.maxY with active := false, workDir := .home }
  let proc : Process Dir :=
    { cwd := b.cwd
      mem := { buffCurrDir := osR.cwdString b.cwd, home := b.home, lists := [] }
      programs := [] }
  let (_, right, proc) ← listDir osR right proc
  let right ← renderingListDir osR proc right
  let (_, left, proc) ← listDir osL left proc
  let left ← renderingListDir osL proc left
  return { leftWin := left, rightWin := right, proc := proc }

/-! ### The loop -/

/-- The keys `main` handles. -/
inductive Key
  | KEY_UP
  | KEY_DOWN
  | TAB
  | ENTER
deriving DecidableEq, Repr

/-- `name_list[selected_obj]->d_name`, as a pointer. -/
def selectedName (mem : Memory Dir) (win : Panel) : Except Stop StrRef := do
  let _ ← mem.entry win.nameList win.selectedObj.toNat
  let id ← orUndefined win.nameList
  return .dName id win.selectedObj.toNat

/-- `ENTER` with the left panel active: an executable is run, and anything else is listed.  The
    cursor starts at the second entry of a new listing. -/
def enterLeft (os : Os Dir) (s : State Dir) : Except Stop (State Dir) := do
  let e ← s.proc.mem.entry s.leftWin.nameList s.leftWin.selectedObj.toNat
  if e.dType = DT_EXEC then
    let (_, proc) := tryExec os e.dName s.proc
    let left ← renderingListDir os proc s.leftWin
    return { s with leftWin := left, proc := proc }
  else
    let ref ← selectedName s.proc.mem s.leftWin
    let (ret, left, proc) ← listDir os { s.leftWin with workDir := ref } s.proc
    if ret = -1 then return { s with leftWin := left, proc := proc }
    else
      let left ← renderingListDir os proc { left with selectedObj := 1 }
      return { s with leftWin := left, proc := proc }

/-- `ENTER` with the right panel active; this copy never runs a program. -/
def enterRight (os : Os Dir) (s : State Dir) : Except Stop (State Dir) := do
  let ref ← selectedName s.proc.mem s.rightWin
  let (ret, right, proc) ← listDir os { s.rightWin with workDir := ref } s.proc
  if ret = -1 then return { s with rightWin := right, proc := proc }
  else
    let right ← renderingListDir os proc { right with selectedObj := 1 }
    return { s with rightWin := right, proc := proc }

/-- `TAB`: the other panel becomes active and the process goes to its `work_dir`, whether `chdir`
    succeeds or not; the source does not look at its result. -/
def tab (os : Os Dir) (s : State Dir) : Except Stop (State Dir) := do
  if s.leftWin.active then
    let path ← s.proc.mem.read s.rightWin.workDir
    return { s with
      leftWin := { s.leftWin with active := false }
      proc := { s.proc with cwd := os.enter s.proc.cwd path } }
  else
    let path ← s.proc.mem.read s.leftWin.workDir
    return { s with
      leftWin := { s.leftWin with active := true }
      proc := { s.proc with cwd := os.enter s.proc.cwd path } }

/-- A cursor key goes to the active panel. -/
def moveCursor (move : Process Dir → Panel → Except Stop Panel) (s : State Dir) :
    Except Stop (State Dir) := do
  if s.leftWin.active then
    let left ← move s.proc s.leftWin
    return { s with leftWin := left }
  else
    let right ← move s.proc s.rightWin
    return { s with rightWin := right }

/-- One turn of the loop of `main`. -/
def handleKey (os : Os Dir) (s : State Dir) : Key → Except Stop (State Dir)
  | .KEY_UP => moveCursor (keyUp os) s
  | .KEY_DOWN => moveCursor (keyDown os) s
  | .TAB => tab os s
  | .ENTER => if s.leftWin.active then enterLeft os s else enterRight os s

/-- The running program: started from `b`, with a key and the outcomes of its system calls at
    each step, all of them among `world`. -/
def fileManager (b : Boot Dir) (world : Set (Os Dir)) :
    TransitionSystem (State Dir) (Key × Os Dir) where
  init s := ∃ osR ∈ world, ∃ osL ∈ world, start osR osL b = .ok s
  step s l s' := l.2 ∈ world ∧ handleKey l.2 s l.1 = .ok s'

/-- Keys handled one after the other, with the same outcomes of the system calls. -/
def handleKeys (os : Os Dir) (keys : List Key) (s : State Dir) : Except Stop (State Dir) :=
  keys.foldlM (handleKey os) s

/-- Handling keys makes a run longer. -/
theorem Reachable.handleKeys {b : Boot Dir} {world : Set (Os Dir)} {os : Os Dir}
    (hos : os ∈ world) {keys : List Key} {s s' : State Dir}
    (hs : (fileManager b world).Reachable s) (h : handleKeys os keys s = .ok s') :
    (fileManager b world).Reachable s' := by
  induction keys generalizing s with
  | nil => cases h; exact hs
  | cons k keys ih =>
    rw [FileManager.handleKeys, List.foldlM_cons, bind_eq_ok] at h
    obtain ⟨s₁, h₁, h⟩ := h
    exact ih (.step (l := (k, os)) hs ⟨hos, h₁⟩) h

end EltexHomeworks.FileManager
