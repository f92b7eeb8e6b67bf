import EltexHomeworks.FileManager.CursorInvariant

namespace EltexHomeworks.FileManager

open EltexHomeworks.Lib
open EltexHomeworks.Lib.ScrollCursor (Move net)

/-!
# File manager — the cursor keys walk a ring

From the state `ListDir` leaves (`State.Fresh`) a run of cursor keys moves the active panel as a
walk moves its `ScrollCursor` (`press_walk`), in a directory that fits the window and in one that
does not.  `selectedObj_ring` reads off the entry that is selected then.
-/

variable {Dir : Type} {n size : Nat}

/-- The key that makes a move. -/
def cursorKey : Move → Key
  | .up => .KEY_UP
  | .down => .KEY_DOWN

/-- Cursor keys pressed one after the other, each with the outcomes of its system calls. -/
def State.press (s : State Dir) (ms : List (Move × Os Dir)) : Except Stop (State Dir) :=
  ms.foldlM (fun s m => handleKey m.2 s (cursorKey m.1)) s

/-- The active panel is as `ListDir`, and the drawing after it, left it. -/
def State.Fresh (s : State Dir) : Prop :=
  ∃ os win p p' w, listDir os win p = .ok (0, w, p') ∧
    renderingListDir os p' w = .ok (s.win s.side) ∧ p'.mem.Keeps s.proc.mem

/-- The active panel shows its listing with the cursor on `c`. -/
structure State.OnCursor (s : State Dir) (c : ScrollCursor n size) : Prop where
  counters : (s.win s.side).At c
  listed : (s.win s.side).Listed s.proc.mem
  drawn : (s.win s.side).Drawn

theorem State.press_cons (s : State Dir) (m : Move × Os Dir) (ms : List (Move × Os Dir)) :
    s.press (m :: ms) = handleKey m.2 s (cursorKey m.1) >>= fun t => t.press ms :=
  List.foldlM_cons

/-! ### The state `ListDir` leaves -/

/-- A fresh panel is listed and drawn, with its counters at the beginning. -/
theorem State.Fresh.rewound {s : State Dir} (h : s.Fresh) :
    (s.win s.side).Listed s.proc.mem ∧ (s.win s.side).Drawn ∧ (s.win s.side).listBegin = 0 ∧
      (s.win s.side).listEnd = (s.win s.side).size ∧ (s.win s.side).y = 1 ∧
      (s.win s.side).selectedObj = 1 := by
  obtain ⟨os, win, p, p', w, hlist, hdraw, hk⟩ := h
  obtain ⟨hl, hb, he, hy, ho⟩ := listDir_listed hlist
  obtain ⟨d, hd, _, hdrawn⟩ := renderingListDir_spec os p' w hl
  rw [hd] at hdraw
  rw [← Except.ok.inj hdraw]
  exact ⟨Panel.Listed.mono hl hk, hdrawn, hb, he, hy, ho⟩

/-- A fresh panel has its cursor on the first entry. -/
theorem State.Fresh.onCursor {s : State Dir} (h : s.Fresh)
    (hn : 2 ≤ (s.win s.side).dirNum.toNat) (hs : 2 ≤ (s.win s.side).size.toNat) :
    s.OnCursor (ScrollCursor.first hn hs) := by
  obtain ⟨hl, hd, hb, _, hy, ho⟩ := h.rewound
  exact ⟨⟨rfl, rfl, congrArg UInt32.toNat hb, congrArg UInt32.toNat hy, congrArg UInt32.toNat ho⟩,
    hl, hd⟩

/-- The program starts in a fresh state. -/
theorem start_fresh {osR osL : Os Dir} {b : Boot Dir} {s : State Dir}
    (h : start osR osL b = .ok s) : s.Fresh := by
  obtain ⟨_, right, pR, dR, retL, left, pL, dL, _, _, hlistL, hleft, rfl⟩ := start_cases h
  cases listDir_first hlistL rfl
  have hside : (State.mk { left with drawn := some dL } { right with drawn := some dR } pL).side =
      .left := if_pos (listDir_active hlistL)
  refine ⟨osL, _, _, pL, left, hlistL, ?_, Memory.Keeps.refl _⟩
  rw [hside]
  exact hleft

/-! ### A key, a run of keys -/

/-- A cursor key is a move of the cursor. -/
theorem State.OnCursor.handleKey (os : Os Dir) {s : State Dir} {c : ScrollCursor n size}
    (h : s.OnCursor c) (m : Move) :
    ∃ t, handleKey os s (cursorKey m) = .ok t ∧ t.OnCursor (c.move m) ∧ t.side = s.side ∧
      (s.win s.side).SameListing (t.win t.side) := by
  have key : ∃ move, FileManager.handleKey os s (cursorKey m) = moveCursor move s ∧
      MovesTo (move s.proc (s.win s.side)) (s.win s.side) (c.move m) := by
    cases m with
    | up => exact ⟨_, rfl, keyUp_movesTo os h.counters h.listed h.drawn⟩
    | down => exact ⟨_, rfl, keyDown_movesTo os h.counters h.listed h.drawn⟩
  obtain ⟨move, hkey, w, hw, hsame, hc, hd⟩ := key
  have hside : (s.update s.side w s.proc).side = s.side := s.side_update _ _ _ hsame.active
  have hwin : (s.update s.side w s.proc).win (s.update s.side w s.proc).side = w := by
    rw [hside, State.win_update_self]
  refine ⟨s.update s.side w s.proc, ?_, ⟨?_, ?_, ?_⟩, hside, ?_⟩
  · rw [hkey, moveCursor_eq, hw]
    rfl
  · rw [hwin]
    exact hc
  · rw [hwin, State.proc_update]
    exact hsame.listed h.listed
  · rw [hwin]
    exact hd
  · rw [hwin]
    exact hsame

/-- **Cursor keys are a walk of the cursor**: pressed one after the other they never stop the
    program, and move the active panel as `next` and `prev` move its cursor. -/
theorem press_walk {s : State Dir} {c : ScrollCursor n size} (h : s.OnCursor c)
    (ms : List (Move × Os Dir)) :
    ∃ t, s.press ms = .ok t ∧ t.OnCursor (c.walk (ms.map Prod.fst)) := by
  induction ms generalizing s c with
  | nil => exact ⟨s, rfl, h⟩
  | cons m ms ih =>
    obtain ⟨t, ht, htc, _⟩ := h.handleKey m.2 m.1
    obtain ⟨u, hu, huc⟩ := ih htc
    refine ⟨u, ?_, huc⟩
    rw [State.press_cons, ht]
    exact hu

/-- The entry selected after a walk from a fresh state. -/
theorem OnCursor.selectedObj_eq {s : State Dir} (hn : 2 ≤ n) (hs : 2 ≤ size) {ms : List Move}
    (h : s.OnCursor ((ScrollCursor.first hn hs).walk ms)) :
    ((s.win s.side).selectedObj.toNat : Int) = 1 + net ms % ((n : Int) - 1) := by
  have hwalk := (ScrollCursor.first hn hs).entry_walk ms
  have hfirst : (((ScrollCursor.first hn hs).entry : Nat) : Int) - 1 + net ms = net ms := by
    show ((0 + 1 : Nat) : Int) - 1 + net ms = net ms
    omega
  rw [h.counters.selectedObj, hwalk, hfirst]

/-- **The cursor walks a ring.**  From the state `ListDir` sets, with two entries or more and two
    rows or more, every sequence of cursor keys selects the entry that the number of `KEY_DOWN`
    less that of `KEY_UP` gives modulo `dir_num - 1`; and after it each of the two keys undoes the
    other. -/
theorem selectedObj_ring {s : State Dir} (h : s.Fresh) (hn : 2 ≤ (s.win s.side).dirNum.toNat)
    (hs : 2 ≤ (s.win s.side).size.toNat) (ms : List (Move × Os Dir)) :
    ∃ t, s.press ms = .ok t ∧
      ((t.win t.side).selectedObj.toNat : Int) =
        1 + net (ms.map Prod.fst) % (((s.win s.side).dirNum.toNat : Int) - 1) ∧
      ∀ os os', (∃ u, t.press [(.up, os), (.down, os')] = .ok u ∧
          (u.win u.side).selectedObj = (t.win t.side).selectedObj) ∧
        ∃ u, t.press [(.down, os), (.up, os')] = .ok u ∧
          (u.win u.side).selectedObj = (t.win t.side).selectedObj := by
  obtain ⟨t, ht, htc⟩ := press_walk (h.onCursor hn hs) ms
  have hsel := OnCursor.selectedObj_eq hn hs htc
  refine ⟨t, ht, hsel, fun os os' => ?_⟩
  -- two keys that cancel out do not change the net number of moves
  have undo : ∀ ms' : List (Move × Os Dir), net (ms'.map Prod.fst) = 0 →
      ∃ u, t.press ms' = .ok u ∧ (u.win u.side).selectedObj = (t.win t.side).selectedObj := by
    intro ms' hnet
    obtain ⟨u, hu, huc⟩ := press_walk htc ms'
    rw [ScrollCursor.walk, ScrollCursor.walk, ← List.foldl_append] at huc
    have hsel' := OnCursor.selectedObj_eq hn hs huc
    rw [ScrollCursor.net_append, hnet, Int.add_zero, ← hsel] at hsel'
    exact ⟨u, hu, UInt32.toNat_inj.mp (Int.ofNat_inj.mp hsel')⟩
  exact ⟨undo _ rfl, undo _ rfl⟩

/-- In a directory of three entries `KEY_UP` from the first one leads to the last. -/
theorem selectedObj_ring_up :
    ∃ s t, start singleDir singleDir singleBoot = .ok s ∧
      s.press [(.up, singleDir)] = .ok t ∧ (t.win t.side).selectedObj.toNat = 2 := by
  have hstart : ∃ s, start singleDir singleDir singleBoot = .ok s ∧
      (s.win s.side).dirNum.toNat = 3 ∧ (s.win s.side).size.toNat = 21 := ⟨_, rfl, rfl, rfl⟩
  obtain ⟨s, hs, hn, hsize⟩ := hstart
  obtain ⟨t, ht, hsel, _⟩ := selectedObj_ring (start_fresh hs) (by omega) (by omega)
    [(.up, singleDir)]
  rw [hn] at hsel
  exact ⟨s, t, hs, ht, Int.ofNat_inj.mp hsel⟩

end EltexHomeworks.FileManager
