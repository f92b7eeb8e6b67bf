import EltexHomeworks.FileManager.Enter

namespace EltexHomeworks.FileManager

open EltexHomeworks.Lib

/-!
# File manager — the two panels

The handlers of the left and of the right panel are written out twice.  `State.mirror` exchanges
the panels; every key commutes with it but one: `ENTER` on an executable, which the copy for the
left panel runs and the copy for the right one opens like a directory (`mirror_iff`).
-/

variable {Dir : Type}

/-- The panel with another flag `active`. -/
def Panel.mark (w : Panel) (active : Bool) : Panel := { w with active := active }

@[simp] theorem Panel.active_mark (w : Panel) (a : Bool) : (w.mark a).active = a := rfl

@[simp] theorem Panel.nameList_mark (w : Panel) (a : Bool) : (w.mark a).nameList = w.nameList := rfl

@[simp] theorem Panel.selectedObj_mark (w : Panel) (a : Bool) :
    (w.mark a).selectedObj = w.selectedObj := rfl

@[simp] theorem Panel.workDir_mark (w : Panel) (a : Bool) : (w.mark a).workDir = w.workDir := rfl

namespace State

/-- The state with the panels exchanged and the other one active.  Only `left_win.active` is ever
    read; `right_win.active` stays what it is. -/
def mirror (s : State Dir) : State Dir where
  leftWin := s.rightWin.mark (!s.leftWin.active)
  rightWin := s.leftWin.mark s.rightWin.active
  proc := s.proc

@[simp] theorem proc_mirror (s : State Dir) : s.mirror.proc = s.proc := rfl

@[simp] theorem side_mirror (s : State Dir) : s.mirror.side = s.side.other := by
  cases h : s.leftWin.active <;> simp [side, mirror, Side.other, h]

theorem win_mirror (s : State Dir) (i : Side) :
    s.mirror.win i.other = (s.win i).mark (s.mirror.win i.other).active := by
  cases i <;> rfl

theorem mirror_update (s : State Dir) (i : Side) {w : Panel} (p : Process Dir)
    (hw : w.active = (s.win i).active) :
    (s.update i w p).mirror =
      s.mirror.update i.other (w.mark (s.mirror.win i.other).active) p := by
  cases i with
  | left =>
    have hw' : w.active = s.leftWin.active := hw
    simp only [update, mirror, win, Side.other, hw', Panel.active_mark]
  | right =>
    have hw' : w.active = s.rightWin.active := hw
    simp only [update, mirror, win, Side.other, hw', Panel.active_mark]

end State

/-! ### The handlers do not read the flag of the panel they are given -/

section Mark

variable {os : Os Dir} {p : Process Dir} (w : Panel) (a : Bool)

theorem renderingListDir_mark :
    renderingListDir os p (w.mark a) = (renderingListDir os p w).map (·.mark a) := by
  show (do
    let rows ← (List.range (w.dirNum.toNat - w.listBegin.toNat)).mapM (drawRow p.mem w)
    return { w.mark a with drawn := _ }) = _
  unfold renderingListDir
  cases (List.range (w.dirNum.toNat - w.listBegin.toNat)).mapM (drawRow p.mem w) <;> rfl

theorem coordControl_mark :
    coordControl os p (w.mark a) = (coordControl os p w).map (·.mark a) := by
  have hmark : ∀ (c : Prop) [Decidable c] (w₁ w₂ : Panel),
      (if c then w₁ else w₂).mark a = if c then w₁.mark a else w₂.mark a :=
    fun c _ w₁ w₂ => apply_ite (·.mark a) c w₁ w₂
  simp only [coordControl, apply_ite (Except.map fun w : Panel => w.mark a),
    ← renderingListDir_mark, hmark]
  rfl

theorem keyUp_mark : keyUp os p (w.mark a) = (keyUp os p w).map (·.mark a) := by
  rw [keyUp, keyUp, Panel.nameList_mark, Panel.selectedObj_mark]
  cases p.mem.entry w.nameList w.selectedObj.toNat with
  | error => rfl
  | ok e => exact coordControl_mark { w with y := w.y - 1, selectedObj := w.selectedObj - 1 } a

theorem keyDown_mark : keyDown os p (w.mark a) = (keyDown os p w).map (·.mark a) := by
  rw [keyDown, keyDown, Panel.nameList_mark, Panel.selectedObj_mark]
  cases p.mem.entry w.nameList w.selectedObj.toNat with
  | error => rfl
  | ok e => exact coordControl_mark { w with y := w.y + 1, selectedObj := w.selectedObj + 1 } a

theorem listDir_mark :
    listDir os (w.mark a) p =
      (listDir os w p).map fun r => (r.1, r.2.1.mark a, r.2.2) := by
  cases hread : p.mem.read w.workDir with
  | error e =>
    rw [listDir, listDir, Panel.workDir_mark, hread]
    rfl
  | ok name =>
    have hread' : p.mem.read (w.mark a).workDir = .ok name := hread
    have hlocate : locate os (w.mark a) p name = locate os w p name := rfl
    rw [listDir_of_read hread, listDir_of_read hread', hlocate]
    cases os.scandir (locate os w p name).cwd (os.lookup p.cwd name).2 with
    | none =>
      show ((locate os w p name).mem.entry w.nameList w.selectedObj.toNat).map _ =
        (((locate os w p name).mem.entry w.nameList w.selectedObj.toNat).map _).map _
      cases (locate os w p name).mem.entry w.nameList w.selectedObj.toNat <;> rfl
    | some found =>
      dsimp only
      cases lstatAll os (os.enter (locate os w p name).cwd (os.lookup p.cwd name).2) found <;> rfl

end Mark

/-! ### The handlers of the two sides -/

theorem moveCursor_mirror {move : Process Dir → Panel → Except Stop Panel} (s : State Dir)
    (hmark : ∀ w a, move s.proc (w.mark a) = (move s.proc w).map (·.mark a))
    (hactive : ∀ w w', move s.proc w = .ok w' → w'.active = w.active) :
    moveCursor move s.mirror = (moveCursor move s).map State.mirror := by
  rw [moveCursor_eq, moveCursor_eq, State.side_mirror, State.win_mirror, State.proc_mirror, hmark]
  cases h : move s.proc (s.win s.side) with
  | error => rfl
  | ok w => exact congrArg Except.ok (s.mirror_update s.side s.proc (hactive _ _ h)).symm

theorem tab_mirror (os : Os Dir) (s : State Dir) :
    tab os s.mirror = (tab os s).map State.mirror := by
  have hm : s.mirror.leftWin.active = !s.leftWin.active := rfl
  rw [tab, tab, hm]
  cases s.leftWin.active with
  | true =>
    show (s.proc.mem.read s.rightWin.workDir >>= _) =
      Except.map _ (s.proc.mem.read s.rightWin.workDir >>= _)
    cases s.proc.mem.read s.rightWin.workDir <;> rfl
  | false =>
    show (s.proc.mem.read s.leftWin.workDir >>= _) =
      Except.map _ (s.proc.mem.read s.leftWin.workDir >>= _)
    cases s.proc.mem.read s.leftWin.workDir <;> rfl

theorem openSelected_mirror (os : Os Dir) (s : State Dir) (i : Side) :
    openSelected os s.mirror i.other = (openSelected os s i).map State.mirror := by
  have hname : selectedName s.proc.mem (s.mirror.win i.other) =
      selectedName s.proc.mem (s.win i) := by
    rw [State.win_mirror]
    rfl
  rw [openSelected, openSelected, State.proc_mirror, hname]
  cases selectedName s.proc.mem (s.win i) with
  | error => rfl
  | ok ref =>
    -- the mirrored panel differs in the flag `active` only, and `ListDir` does not read it
    have hwin : { s.mirror.win i.other with workDir := ref } =
        ({ s.win i with workDir := ref } : Panel).mark (s.mirror.win i.other).active := by
      cases i <;> rfl
    show (listDir os { s.mirror.win i.other with workDir := ref } s.proc >>= _) =
      Except.map _ (listDir os { s.win i with workDir := ref } s.proc >>= _)
    rw [hwin, listDir_mark]
    cases hlist : listDir os { s.win i with workDir := ref } s.proc with
    | error => rfl
    | ok r =>
      obtain ⟨ret, w, p⟩ := r
      -- nor does it write it
      have hactive : w.active = (s.win i).active := (listDir_active hlist).trans rfl
      show (if ret = -1 then Except.ok (s.mirror.update i.other (w.mark _) p) else _) =
        Except.map _ (if ret = -1 then Except.ok (s.update i w p) else _)
      by_cases hret : ret = -1
      · rw [if_pos hret, if_pos hret]
        exact congrArg Except.ok (s.mirror_update i p hactive).symm
      · rw [if_neg hret, if_neg hret]
        show (renderingListDir os p
            (({ w with selectedObj := 1 } : Panel).mark (s.mirror.win i.other).active) >>= _) =
          Except.map _ (renderingListDir os p { w with selectedObj := 1 } >>= _)
        rw [renderingListDir_mark]
        cases hdraw : renderingListDir os p { w with selectedObj := 1 } with
        | error => rfl
        | ok w' =>
          have hactive' : w'.active = (s.win i).active := by
            obtain ⟨d, rfl, _⟩ := renderingListDir_frame hdraw
            exact hactive
          exact congrArg Except.ok (s.mirror_update i p hactive').symm

/-! ### An executable -/

/-- The mirror image of a state selects the same entry. -/
theorem State.selectsExec_mirror (s : State Dir) : s.mirror.SelectsExec ↔ s.SelectsExec := by
  rw [State.SelectsExec, State.SelectsExec, State.side_mirror, State.win_mirror]
  exact Iff.rfl

/-- A system in which every call fails but `fork`. -/
def Os.failing : Os Dir where
  chdir _ _ := none
  getcwd _ := none
  opendir _ _ := none
  readdir _ := ⟨[], by decide⟩
  lstat _ _ := none
  malloc := []
  fork := true

/-- There the copy for the left panel runs the program. -/
theorem enterLeft_programs {s t : State Dir} {e : Dirent}
    (he : s.proc.mem.entry s.leftWin.nameList s.leftWin.selectedObj.toNat = .ok e)
    (hx : e.dType = DT_EXEC) (h : enterLeft .failing s = .ok t) :
    t.proc.programs = s.proc.programs ++ [(s.proc.cwd, e.dName)] := by
  rw [enterLeft, he] at h
  replace h : (if e.dType = DT_EXEC then _ else _) = Except.ok t := h
  rw [if_pos hx] at h
  dsimp only at h
  rw [bind_eq_ok] at h
  obtain ⟨w, _, h⟩ := h
  cases h
  rfl

/-- A name that can be read can be read after `ListDir` failed. -/
theorem openSelected_failing {s : State Dir} {i : Side} {e : Dirent}
    (he : s.proc.mem.entry (s.win i).nameList (s.win i).selectedObj.toNat = .ok e) :
    ∃ t, openSelected .failing s i = .ok t ∧ t.proc.programs = s.proc.programs := by
  obtain ⟨id, p, _, hp, ⟨_, hopen⟩ | ⟨found, hscan, _⟩⟩ := openSelected_cases .failing he
  · refine ⟨_, hopen, ?_⟩
    rw [State.proc_update, hp, locate]
    split <;> rfl
  · cases hscan

/-- **An executable** is run by the copy for the left panel only. -/
theorem enter_not_mirrored {s : State Dir} (h : s.SelectsExec) :
    ¬ handleKey .failing s.mirror .ENTER = (handleKey .failing s .ENTER).map State.mirror := by
  obtain ⟨e, he, hx⟩ := h
  obtain ⟨t, ht, hsame⟩ := openSelected_failing he
  -- on the left the program is started, and the list of programs grows
  have hlong : s.proc.programs ++ [(s.proc.cwd, e.dName)] ≠ s.proc.programs := by simp
  intro heq
  by_cases ha : s.leftWin.active = true
  · -- the left panel runs it, the right one in the mirror image does not
    have hside : s.side = .left := by rw [State.side, if_pos ha]
    rw [hside] at he ht
    have hmirror : handleKey .failing s.mirror .ENTER =
        (openSelected .failing s .left).map State.mirror := by
      rw [← openSelected_mirror]
      show (if s.mirror.leftWin.active = true then _ else _) = _
      rw [if_neg (by show ¬ (!s.leftWin.active) = true; rw [ha]; decide)]
      rfl
    rw [hmirror, ht, handleKey, if_pos ha] at heq
    cases hl : enterLeft .failing s with
    | error => rw [hl] at heq; cases heq
    | ok u =>
      rw [hl] at heq
      have hprograms := congrArg (fun v : State Dir => v.proc.programs) (Except.ok.inj heq)
      refine hlong ?_
      rw [← enterLeft_programs he hx hl, ← hsame]
      exact hprograms.symm
  · -- the right panel opens it in vain, and its mirror image runs it
    have hside : s.side = .right := by rw [State.side, if_neg ha]
    rw [hside] at he ht
    have hmirror : handleKey .failing s.mirror .ENTER = enterLeft .failing s.mirror := by
      show (if s.mirror.leftWin.active = true then _ else _) = _
      rw [if_pos (by show (!s.leftWin.active) = true; simpa using ha)]
    have hright : handleKey .failing s .ENTER = .ok t := by
      rw [handleKey, if_neg ha]
      exact ht
    rw [hmirror, hright] at heq
    have hprograms := enterLeft_programs (s := s.mirror) he hx heq
    exact hlong (hprograms.symm.trans hsame)

/-! ### Keys and runs -/

/-- `ENTER` pressed on an executable. -/
def State.PressesExec (s : State Dir) (k : Key) : Prop := k = .ENTER ∧ s.SelectsExec

/-- Every other key commutes with the exchange of the panels. -/
theorem handleKey_mirror (os : Os Dir) {s : State Dir} {k : Key} (h : ¬ s.PressesExec k) :
    handleKey os s.mirror k = (handleKey os s k).map State.mirror := by
  cases k with
  | KEY_UP =>
    exact moveCursor_mirror s (fun w a => keyUp_mark w a)
      fun w w' h => (move_frame (Or.inl rfl) h).1.active
  | KEY_DOWN =>
    exact moveCursor_mirror s (fun w a => keyDown_mark w a)
      fun w w' h => (move_frame (Or.inr rfl) h).1.active
  | TAB => exact tab_mirror os s
  | ENTER =>
    have hs : ¬ s.SelectsExec := fun hs => h ⟨rfl, hs⟩
    rw [handleKey_enter fun _ => mt s.selectsExec_mirror.mp hs, handleKey_enter fun _ => hs,
      State.side_mirror]
    exact openSelected_mirror os s s.side

/-- **The panels are interchangeable** for a key, whatever its system calls return, if and only if
    it is not `ENTER` on an executable; and so they are for every run without such a key. -/
theorem mirror_iff :
    (∀ (s : State Dir) (k : Key),
      (∀ os, handleKey os s.mirror k = (handleKey os s k).map State.mirror) ↔
        ¬ s.PressesExec k) ∧
      ∀ (s : State Dir) (ls : List (Key × Os Dir)),
        Along State.next (fun s l => ¬ s.PressesExec l.1) s ls →
          s.mirror.run ls = (s.run ls).map State.mirror := by
  constructor
  · intro s k
    refine ⟨fun hall hexec => ?_, fun h os => handleKey_mirror os h⟩
    obtain ⟨rfl, hsel⟩ := hexec
    exact enter_not_mirrored hsel (hall .failing)
  · intro s ls
    induction ls generalizing s with
    | nil => exact fun _ => rfl
    | cons l ls ih =>
      rintro ⟨hl, hls⟩
      rw [State.run, State.run, List.foldlM_cons, List.foldlM_cons, handleKey_mirror l.2 hl]
      cases ht : handleKey l.2 s l.1 with
      | error => rfl
      | ok t => exact ih t (hls t (by rw [State.next, ht]; rfl))

/-- `TAB` and `KEY_UP` from the start do the same in the mirror image. -/
theorem mirror_tab_up :
    ∃ s, start singleDir singleDir singleBoot = .ok s ∧
      s.mirror.run [(.TAB, singleDir), (.KEY_UP, singleDir)] =
        (s.run [(.TAB, singleDir), (.KEY_UP, singleDir)]).map State.mirror :=
  ⟨_, rfl, mirror_iff.2 _ _
    ⟨fun h => (by cases h.1), fun _ _ => ⟨fun h => (by cases h.1), fun _ _ => trivial⟩⟩⟩

/-- A system whose only directory has the entries `.`, `..` and the executable `a`. -/
def execDir : Os Unit :=
  { singleDir with
    lstat := fun _ name => some (if name = [97] then 0o100755 else 0o040755) }

/-- The left panel runs `a`, the right one in the mirror image tries to open it. -/
theorem not_mirrored :
    ¬ ∀ (Dir : Type) (os : Os Dir) (s : State Dir) (k : Key),
      handleKey os s.mirror k = (handleKey os s k).map State.mirror := by
  intro h
  have hrun : ∃ s₀ s e, start execDir execDir singleBoot = .ok s₀ ∧
      handleKey execDir s₀ .KEY_DOWN = .ok s ∧
      s.proc.mem.entry (s.win s.side).nameList (s.win s.side).selectedObj.toNat = .ok e ∧
      e.dType = DT_EXEC := ⟨_, _, _, rfl, rfl, rfl, rfl⟩
  obtain ⟨_, s, e, _, _, he, hx⟩ := hrun
  exact enter_not_mirrored ⟨e, he, hx⟩ (h Unit .failing s .ENTER)

end EltexHomeworks.FileManager
