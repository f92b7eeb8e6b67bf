import EltexHomeworks.FileManager.Main
import EltexHomeworks.Lib.Run

namespace EltexHomeworks.FileManager

open EltexHomeworks.Lib

/-!
# File manager — what a key can do

The two hand-written copies of each handler are read here once, through the side that is active:
`handleKey_cases` lists everything a key can do to the state, with the outcome of `ListDir` left
to `listDir_cases`.
-/

variable {Dir : Type}

/-- The two panels. -/
inductive Side
  | left
  | right
deriving DecidableEq, Repr

namespace State

/-- The panel of a side. -/
def win (s : State Dir) : Side → Panel
  | .left => s.leftWin
  | .right => s.rightWin

/-- The side whose panel is active, read from `left_win.active` as the handlers do. -/
def side (s : State Dir) : Side := if s.leftWin.active then .left else .right

/-- The state with another panel on one side and another process. -/
def update (s : State Dir) (i : Side) (w : Panel) (p : Process Dir) : State Dir :=
  match i with
  | .left => { s with leftWin := w, proc := p }
  | .right => { s with rightWin := w, proc := p }

variable (s : State Dir) (i j : Side) (w : Panel) (p : Process Dir)

@[simp] theorem proc_update : (s.update i w p).proc = p := by cases i <;> rfl

@[simp] theorem win_update_self : (s.update i w p).win i = w := by cases i <;> rfl

theorem win_update_of_ne (h : j ≠ i) : (s.update i w p).win j = s.win j := by
  cases i <;> cases j <;> first | rfl | exact absurd rfl h

/-- What holds of both panels, and outlives changes to other arrays, holds after one was
    replaced. -/
theorem forall_update {P : Panel → Memory Dir → Prop}
    (mono : ∀ {v : Panel} {m m' : Memory Dir}, P v m → m.Keeps m' → P v m')
    (h : ∀ j, P (s.win j) s.proc.mem) (hk : s.proc.mem.Keeps p.mem) (hw : P w p.mem) :
    ∀ j, P ((s.update i w p).win j) (s.update i w p).proc.mem := by
  intro j
  rw [proc_update]
  by_cases hj : j = i
  · subst hj
    rw [win_update_self]
    exact hw
  · rw [win_update_of_ne _ _ _ _ _ hj]
    exact mono (h j) hk

/-- A panel that stays active or inactive leaves the active side as it is. -/
theorem side_update (h : w.active = (s.win i).active) : (s.update i w p).side = s.side := by
  cases i with
  | left => simp only [side, update, h, win]
  | right => rfl

end State

/-- The other side. -/
def Side.other : Side → Side
  | .left => .right
  | .right => .left

/-! ### The handlers, by the active side -/

/-- The handlers of the cursor keys move the active panel. -/
theorem moveCursor_eq (move : Process Dir → Panel → Except Stop Panel) (s : State Dir) :
    moveCursor move s = do
      let w ← move s.proc (s.win s.side)
      return s.update s.side w s.proc := by
  unfold moveCursor
  by_cases ha : s.leftWin.active = true
  · have hside : s.side = .left := by rw [State.side, if_pos ha]
    rw [if_pos ha, hside]
    rfl
  · have hside : s.side = .right := by rw [State.side, if_neg ha]
    rw [if_neg ha, hside]
    rfl

/-- A cursor key moves the active panel. -/
theorem moveCursor_cases {move : Process Dir → Panel → Except Stop Panel} {s s' : State Dir}
    (h : moveCursor move s = .ok s') :
    ∃ w, move s.proc (s.win s.side) = .ok w ∧ s' = s.update s.side w s.proc := by
  rw [moveCursor_eq, bind_eq_ok] at h
  obtain ⟨w, hw, h⟩ := h
  cases h
  exact ⟨w, hw, rfl⟩

/-- The state after `TAB`, with the working directory `cwd`. -/
def State.switched (s : State Dir) (cwd : Dir) : State Dir :=
  { s with
    leftWin := { s.leftWin with active := !s.leftWin.active }
    proc := { s.proc with cwd := cwd } }

theorem State.side_switched (s : State Dir) (cwd : Dir) :
    (s.switched cwd).side = s.side.other := by
  cases h : s.leftWin.active <;> simp [State.side, State.switched, Side.other, h]

/-- `TAB` makes the other panel active and enters the directory its `work_dir` names. -/
theorem tab_cases {os : Os Dir} {s s' : State Dir} (h : tab os s = .ok s') :
    ∃ path, s.proc.mem.read (s.win s.side.other).workDir = .ok path ∧
      s' = s.switched (os.enter s.proc.cwd path) := by
  unfold tab at h
  by_cases ha : s.leftWin.active = true
  · rw [if_pos ha, bind_eq_ok] at h
    obtain ⟨path, hpath, h⟩ := h
    cases h
    have hside : s.side = .left := by rw [State.side, if_pos ha]
    rw [hside]
    exact ⟨path, hpath, by rw [State.switched, ha]; rfl⟩
  · rw [if_neg ha, bind_eq_ok] at h
    obtain ⟨path, hpath, h⟩ := h
    cases h
    have hside : s.side = .right := by rw [State.side, if_neg ha]
    rw [hside]
    exact ⟨path, hpath, by rw [State.switched, Bool.eq_false_iff.mpr ha]; rfl⟩

/-- The pointer `ENTER` takes is to the name of the selected entry. -/
theorem selectedName_eq_ok {m : Memory Dir} {win : Panel} {ref : StrRef}
    (h : selectedName m win = .ok ref) :
    ∃ id e, win.nameList = some id ∧ m.entry win.nameList win.selectedObj.toNat = .ok e ∧
      ref = .dName id win.selectedObj.toNat ∧ m.read ref = .ok e.dName := by
  rw [selectedName, bind_eq_ok] at h
  obtain ⟨e, he, h⟩ := h
  rw [bind_eq_ok] at h
  obtain ⟨id, hid, h⟩ := h
  rw [orUndefined_eq_ok] at hid
  cases h
  refine ⟨id, e, hid, he, rfl, ?_⟩
  rw [hid] at he
  rw [Memory.read, he]
  rfl

/-- An entry that can be read can be pointed at. -/
theorem selectedName_of_entry {m : Memory Dir} {win : Panel} {e : Dirent}
    (he : m.entry win.nameList win.selectedObj.toNat = .ok e) :
    ∃ id, win.nameList = some id ∧ selectedName m win = .ok (.dName id win.selectedObj.toNat) ∧
      m.read (.dName id win.selectedObj.toNat) = .ok e.dName := by
  cases hid : win.nameList with
  | none => rw [hid] at he; cases he
  | some id =>
    have hname : selectedName m win = .ok (.dName id win.selectedObj.toNat) := by
      rw [selectedName, he, hid]
      rfl
    obtain ⟨_, e', _, he', _, hread⟩ := selectedName_eq_ok hname
    rw [he] at he'
    cases he'
    exact ⟨id, rfl, hname, hread⟩

/-- What `ENTER` does with an entry it opens by `ListDir`. -/
def OpensSelected (os : Os Dir) (s s' : State Dir) : Prop :=
  ∃ ref ret w p, selectedName s.proc.mem (s.win s.side) = .ok ref ∧
    listDir os { s.win s.side with workDir := ref } s.proc = .ok (ret, w, p) ∧
    (ret = -1 ∧ s' = s.update s.side w p ∨
      ∃ w', renderingListDir os p { w with selectedObj := 1 } = .ok w' ∧
        ret ≠ -1 ∧ s' = s.update s.side w' p)

/-- What `ENTER` does with an executable. -/
def RunsSelected (os : Os Dir) (s s' : State Dir) : Prop :=
  ∃ name w, renderingListDir os (tryExec os name s.proc).2 (s.win s.side) = .ok w ∧
    s' = s.update s.side w (tryExec os name s.proc).2

/-- What both copies of the `ENTER` handler do after `ListDir`: the panel is drawn, with the cursor
    on entry 1, unless `ListDir` failed. -/
theorem afterListDir_cases {os : Os Dir} {s s' : State Dir} {i : Side} {ret : Int} {w : Panel}
    {p : Process Dir}
    (h : (if ret = -1 then Except.ok (s.update i w p)
      else renderingListDir os p { w with selectedObj := 1 } >>= fun w' =>
        Except.ok (s.update i w' p)) = .ok s') :
    ret = -1 ∧ s' = s.update i w p ∨
      ∃ w', renderingListDir os p { w with selectedObj := 1 } = .ok w' ∧
        ret ≠ -1 ∧ s' = s.update i w' p := by
  by_cases hret : ret = -1
  · rw [if_pos hret] at h
    exact .inl ⟨hret, (Except.ok.inj h).symm⟩
  · rw [if_neg hret, bind_eq_ok] at h
    obtain ⟨w', hw', h⟩ := h
    exact .inr ⟨w', hw', hret, (Except.ok.inj h).symm⟩

/-- `ENTER` opens the selected entry, or runs it. -/
theorem enter_cases {os : Os Dir} {s s' : State Dir} (h : handleKey os s .ENTER = .ok s') :
    OpensSelected os s s' ∨ RunsSelected os s s' := by
  unfold handleKey at h
  by_cases ha : s.leftWin.active = true
  · have hside : s.side = .left := by rw [State.side, if_pos ha]
    rw [if_pos ha, enterLeft, bind_eq_ok] at h
    obtain ⟨e, _, h⟩ := h
    by_cases hx : e.dType = DT_EXEC
    · rw [if_pos hx] at h
      dsimp only at h
      rw [bind_eq_ok] at h
      obtain ⟨w, hw, h⟩ := h
      cases h
      right
      rw [RunsSelected, hside]
      exact ⟨e.dName, w, hw, rfl⟩
    · rw [if_neg hx, bind_eq_ok] at h
      obtain ⟨ref, href, h⟩ := h
      rw [bind_eq_ok] at h
      obtain ⟨⟨ret, w, p⟩, hlist, h⟩ := h
      left
      rw [OpensSelected, hside]
      exact ⟨ref, ret, w, p, href, hlist, afterListDir_cases (i := .left) h⟩
  · -- the right copy opens executables too
    have hside : s.side = .right := by rw [State.side, if_neg ha]
    rw [if_neg ha, enterRight, bind_eq_ok] at h
    obtain ⟨ref, href, h⟩ := h
    rw [bind_eq_ok] at h
    obtain ⟨⟨ret, w, p⟩, hlist, h⟩ := h
    left
    rw [OpensSelected, hside]
    exact ⟨ref, ret, w, p, href, hlist, afterListDir_cases (i := .right) h⟩

/-- **What a key can do**: move the cursor of the active panel, make the other panel active, open
    the selected entry, or run it. -/
theorem handleKey_cases {os : Os Dir} {s s' : State Dir} {k : Key}
    (h : handleKey os s k = .ok s') :
    (∃ move w, (move = keyUp os ∨ move = keyDown os) ∧
        move s.proc (s.win s.side) = .ok w ∧ s' = s.update s.side w s.proc) ∨
      (∃ path, s.proc.mem.read (s.win s.side.other).workDir = .ok path ∧
        s' = s.switched (os.enter s.proc.cwd path)) ∨
      OpensSelected os s s' ∨ RunsSelected os s s' := by
  cases k with
  | KEY_UP =>
    obtain ⟨w, hw, hs⟩ := moveCursor_cases h
    exact Or.inl ⟨_, w, Or.inl rfl, hw, hs⟩
  | KEY_DOWN =>
    obtain ⟨w, hw, hs⟩ := moveCursor_cases h
    exact Or.inl ⟨_, w, Or.inr rfl, hw, hs⟩
  | TAB => exact Or.inr (Or.inl (tab_cases h))
  | ENTER => exact Or.inr (Or.inr (enter_cases h))

/-! ### Runs -/

/-- Keys handled one after the other, each with the outcomes of its system calls. -/
def State.run (s : State Dir) (ls : List (Key × Os Dir)) : Except Stop (State Dir) :=
  ls.foldlM (fun s l => handleKey l.2 s l.1) s

/-- One key, as far as it can be handled. -/
def State.next (s : State Dir) (l : Key × Os Dir) : Option (State Dir) :=
  (handleKey l.2 s l.1).toOption

theorem State.next_eq_some {s t : State Dir} {l : Key × Os Dir} :
    s.next l = some t ↔ handleKey l.2 s l.1 = .ok t := by
  unfold State.next
  cases handleKey l.2 s l.1 with
  | error => exact ⟨fun h => (by cases h), fun h => (by cases h)⟩
  | ok u => exact ⟨fun h => congrArg _ (Option.some.inj h), fun h => congrArg _ (Except.ok.inj h)⟩

/-! ### Start-up -/

/-- The right panel as `main` passes it to `ListDir`. -/
def Boot.right (b : Boot Dir) : Panel :=
  { initMainWin b.rightWin b.maxY with active := false, workDir := .home }

/-- The left panel as `main` passes it to `ListDir`. -/
def Boot.left (b : Boot Dir) : Panel :=
  { initMainWin b.leftWin b.maxY with active := true, workDir := .buffCurrDir }

/-- The process before the first `ListDir`. -/
def Boot.proc (b : Boot Dir) (os : Os Dir) : Process Dir where
  cwd := b.cwd
  mem := { buffCurrDir := os.cwdString b.cwd, home := b.home, lists := [] }
  programs := []

/-- **What start-up does**: the two panels are listed and drawn, the right one first. -/
theorem start_cases {osR osL : Os Dir} {b : Boot Dir} {s : State Dir}
    (h : start osR osL b = .ok s) :
    ∃ retR right pR dR retL left pL dL,
      listDir osR b.right (b.proc osR) = .ok (retR, right, pR) ∧
      renderingListDir osR pR right = .ok { right with drawn := some dR } ∧
      listDir osL b.left pR = .ok (retL, left, pL) ∧
      renderingListDir osL pL left = .ok { left with drawn := some dL } ∧
      s = ⟨{ left with drawn := some dL }, { right with drawn := some dR }, pL⟩ := by
  rw [start, bind_eq_ok] at h
  obtain ⟨⟨retR, right, pR⟩, hlistR, h⟩ := h
  rw [bind_eq_ok] at h
  obtain ⟨right', hright, h⟩ := h
  rw [bind_eq_ok] at h
  obtain ⟨⟨retL, left, pL⟩, hlistL, h⟩ := h
  rw [bind_eq_ok] at h
  obtain ⟨left', hleft, h⟩ := h
  cases h
  obtain ⟨dR, rfl, _⟩ := renderingListDir_frame hright
  obtain ⟨dL, rfl, _⟩ := renderingListDir_frame hleft
  exact ⟨retR, right, pR, dR, retL, left, pL, dL, hlistR, hright, hlistL, hleft, rfl⟩

end EltexHomeworks.FileManager
