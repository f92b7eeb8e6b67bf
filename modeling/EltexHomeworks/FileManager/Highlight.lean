import EltexHomeworks.FileManager.Enter

namespace EltexHomeworks.FileManager

open EltexHomeworks.Lib

/-!
# File manager — the highlighted rows

`main` shows the cursors by attributes: at the top of its loop `mvwchgat` makes row `y` of the
active panel bold and that of the other one dim, and the handlers give the row they leave its own
attributes back by `wchgat`, which works where the cursor of the curses window was left.  `Paint` is
this part of a window, at the column where the names begin, and `Painted.next` a turn of the loop
with its calls of `wchgat` and `mvwchgat`.

* `highlight_follows` — in each panel the row of the selected entry is highlighted and no other, and
  the others have the attributes of their entries.
-/

/-- The attributes of a row: those of an entry, or a highlight. -/
inductive RowAttr
  /-- Pair 1. -/
  | plain
  /-- Pair 3, `A_BOLD`. -/
  | exec
  /-- Pair 1, `A_BOLD`. -/
  | bold
  /-- Pair 1, `A_DIM`. -/
  | dim
deriving DecidableEq, Repr

/-- The attributes `RenderingListDir` and the cursor keys give the row of an entry. -/
def Dirent.attr (e : Dirent) : RowAttr := if e.dType = DT_EXEC then .exec else .plain

/-- The window of a panel. -/
structure Paint where
  /-- The row of the window's cursor, if that is where the names begin. -/
  cursor : Option Nat
  attr : Nat → RowAttr

variable {Dir : Type}

namespace Paint

/-- `wchgat(win, -1, a)`: from the cursor to the end of its row. -/
def wchgat (p : Paint) (a : RowAttr) : Option Paint :=
  p.cursor.map fun y => { p with attr := Function.update p.attr y a }

/-- `mvwchgat(win, y, 1, -1, a)` in a window of `maxY` rows; it fails off the window. -/
def mvwchgat (p : Paint) (maxY y : Nat) (a : RowAttr) : Paint :=
  if y < maxY then { cursor := some y, attr := Function.update p.attr y a } else p

end Paint

/-- What row `r` of a drawn panel shows: the entry `list_begin + r`, if there is one. -/
def rowAttr (mem : Memory Dir) (win : Panel) (r : Nat) : RowAttr :=
  if win.listBegin.toNat + r < win.dirNum.toNat then
    match mem.entry win.nameList (win.listBegin.toNat + r) with
    | .ok e => e.attr
    | .error _ => .plain
  else .plain

/-- The window after `RenderingListDir`: the names in its rows, but for the first and the last one,
    where the box is drawn over them.  The cursor is behind the last name. -/
def Paint.rendered (mem : Memory Dir) (win : Panel) : Paint where
  cursor := none
  attr r := if 1 ≤ r ∧ r + 1 < win.maxY then rowAttr mem win r else .plain

/-- `CoordControl` calls `RenderingListDir`. -/
def Panel.redraws (win : Panel) : Bool :=
  win.dirNum > win.size && (win.y ≥ win.size || win.y < 1)

/-- The program with the windows of its panels. -/
structure Painted (Dir : Type) where
  state : State Dir
  paint : Side → Paint

namespace Painted

/-- `KEY_UP` and `KEY_DOWN` in the window `p` of the active panel `win`, which hands `moved` to
    `CoordControl` and becomes `win'`. -/
def paintMove (mem : Memory Dir) (win moved win' : Panel) (p : Paint) : Option Paint := do
  let e ← (mem.entry win.nameList win.selectedObj.toNat).toOption
  let p ← p.wchgat e.attr
  let p := if moved.redraws then .rendered mem win' else p
  return p.mvwchgat win'.maxY win'.y.toNat .bold

/-- `ENTER` in the window `p` of the active panel, from the state `s` to the state `t`; a `ListDir`
    that fails leaves it. -/
def paintEnter (os : Os Dir) (s t : State Dir) (p : Paint) : Option Paint := do
  let win := s.win s.side
  let e ← (s.proc.mem.entry win.nameList win.selectedObj.toNat).toOption
  if s.side = .left ∧ e.dType = DT_EXEC then
    return .rendered t.proc.mem (t.win s.side)
  else
    let ref ← (selectedName s.proc.mem win).toOption
    let (ret, _) ← (listDir os { win with workDir := ref } s.proc).toOption
    return if ret = -1 then p else .rendered t.proc.mem (t.win s.side)

/-- What the handler of a key does to the windows, from the state `s` to the state `t`: the cursor
    keys and `ENTER` paint the active window, and `TAB` only highlights in both. -/
def paintKey (os : Os Dir) (s : Painted Dir) (t : State Dir) (k : Key) : Option (Side → Paint) :=
  let i := s.state.side
  let win := s.state.win i
  match k with
  | .KEY_UP =>
    (paintMove s.state.proc.mem win
      { win with y := win.y - 1, selectedObj := win.selectedObj - 1 } (t.win i) (s.paint i)).map
        (Function.update s.paint i)
  | .KEY_DOWN =>
    (paintMove s.state.proc.mem win
      { win with y := win.y + 1, selectedObj := win.selectedObj + 1 } (t.win i) (s.paint i)).map
        (Function.update s.paint i)
  | .TAB => do
    let p ← (s.paint i).wchgat .dim
    let q ← (s.paint i.other).wchgat .bold
    return Function.update (Function.update s.paint i p) i.other q
  | .ENTER => (paintEnter os s.state t (s.paint i)).map (Function.update s.paint i)

/-- The top of the loop. -/
def highlight (t : State Dir) (paint : Side → Paint) : Painted Dir where
  state := t
  paint i :=
    (paint i).mvwchgat (t.win i).maxY (t.win i).y.toNat (if i = t.side then .bold else .dim)

/-- A turn of the loop, from behind its top to there. -/
def next (s : Painted Dir) (l : Key × Os Dir) : Option (Painted Dir) := do
  let t ← s.state.next l
  let paint ← s.paintKey l.2 t l.1
  return highlight t paint

/-- The first time behind the top of the loop: both panels were drawn. -/
def Starts (b : Boot Dir) (world : Set (Os Dir)) (s : Painted Dir) : Prop :=
  ∃ osR ∈ world, ∃ osL ∈ world, ∃ t, start osR osL b = .ok t ∧
    s = highlight t fun i => .rendered t.proc.mem (t.win i)

end Painted

/-- The running program with its windows. -/
def paintedManager (b : Boot Dir) (world : Set (Os Dir)) :
    TransitionSystem (Painted Dir) (Key × Os Dir) where
  init := Painted.Starts b world
  step s l t := l.2 ∈ world ∧ s.next l = some t

/-! ### Entries keep their types -/

/-- Every entry of `m` is in `m'`, with the same type. -/
def Memory.KeepsTypes (m m' : Memory Dir) : Prop :=
  ∀ nameList i e, m.entry nameList i = .ok e →
    ∃ e', m'.entry nameList i = .ok e' ∧ e'.dType = e.dType

theorem Memory.entry_eq_ok {m : Memory Dir} {nameList : Option Nat} {i : Nat} {e : Dirent} :
    m.entry nameList i = .ok e ↔
      ∃ id l, nameList = some id ∧ m.lists[id]? = some l ∧ l.entries[i]? = some e := by
  rw [Memory.entry, bind_eq_ok]
  constructor
  · rintro ⟨l, hl, he⟩
    cases nameList with
    | none => rw [Memory.list_none] at hl; cases hl
    | some id => exact ⟨id, l, rfl, Memory.list_some_eq_ok.mp hl, orUndefined_eq_ok.mp he⟩
  · rintro ⟨id, l, rfl, hl, he⟩
    exact ⟨l, Memory.list_some_eq_ok.mpr hl, orUndefined_eq_ok.mpr he⟩

namespace Memory.KeepsTypes

variable {m m' m'' : Memory Dir}

theorem refl (m : Memory Dir) : m.KeepsTypes m := fun _ _ e h => ⟨e, h, rfl⟩

theorem trans (h : m.KeepsTypes m') (h' : m'.KeepsTypes m'') : m.KeepsTypes m'' := by
  intro nameList i e he
  obtain ⟨e', he', htype⟩ := h nameList i e he
  obtain ⟨e'', he'', htype'⟩ := h' nameList i e' he'
  exact ⟨e'', he'', htype'.trans htype⟩

/-- A name that is copied over. -/
theorem strcpy (m : Memory Dir) (ref : StrRef) (s : Str) : m.KeepsTypes (m.strcpy ref s) := by
  intro nameList i e he
  obtain ⟨id, l, rfl, hl, hi⟩ := Memory.entry_eq_ok.mp he
  by_cases hne : ∀ j, ref ≠ .dName id j
  · exact ⟨e, by rw [Memory.entry, Memory.list_strcpy_of_ne hne]; exact he, rfl⟩
  · rw [not_forall_not] at hne
    obtain ⟨j, rfl⟩ := hne
    have hlist := Memory.list_strcpy_self (i := j) (s := s) (Memory.list_some_eq_ok.mpr hl)
    have hentry : (l.rename j s).entries[i]? =
        some (if j = i then { e with dName := s } else e) := by
      rw [Listing.rename, List.getElem?_modify, hi]
      rfl
    refine ⟨_, Memory.entry_eq_ok.mpr ⟨id, _, rfl, Memory.list_some_eq_ok.mp hlist, hentry⟩, ?_⟩
    split <;> rfl

theorem alloc (m : Memory Dir) (l : Listing Dir) : m.KeepsTypes (m.alloc l) := by
  intro nameList i e he
  obtain ⟨id, l', rfl, hl', hi⟩ := Memory.entry_eq_ok.mp he
  obtain ⟨hid, -⟩ := List.getElem?_eq_some_iff.mp hl'
  refine ⟨e, Memory.entry_eq_ok.mpr ⟨id, l', rfl, ?_, hi⟩, rfl⟩
  rw [Memory.alloc, List.getElem?_append_left hid]
  exact hl'

/-- **`ListDir`** sets the types of the entries it has read, and of no others. -/
theorem listDir {os : Os Dir} {win w : Panel} {p p' : Process Dir} {ret : Int}
    (h : listDir os win p = .ok (ret, w, p')) : p.mem.KeepsTypes p'.mem := by
  obtain ⟨name, _, p₁, -, rfl, -, hcases⟩ := listDir_cases h
  have hclimb : p.mem.KeepsTypes (if name = dotDot then climb os win p else p).mem := by
    split
    · exact strcpy _ _ _
    · exact refl _
  rcases hcases with ⟨-, -, -, rfl, -⟩ | ⟨-, list, -, -, -, -, -, rfl⟩
  · exact hclimb
  · exact hclimb.trans (alloc _ _)

end Memory.KeepsTypes

/-- The rows of a panel outlive changes elsewhere in memory. -/
theorem rowAttr_of_keeps {m m' : Memory Dir} {win : Panel} (hl : win.Listed m)
    (hk : m.KeepsTypes m') (r : Nat) : rowAttr m' win r = rowAttr m win r := by
  unfold rowAttr
  by_cases hr : win.listBegin.toNat + r < win.dirNum.toNat
  · obtain ⟨e, he⟩ := hl.entry hr
    obtain ⟨e', he', htype⟩ := hk _ _ e he
    rw [if_pos hr, if_pos hr, he, he']
    show e'.attr = e.attr
    rw [Dirent.attr, Dirent.attr, htype]
  · rw [if_neg hr, if_neg hr]

/-! ### One window -/

/-- The rows of a window but the one of the cursor have the attributes of their entries. -/
def Paint.Others (p : Paint) (mem : Memory Dir) (win : Panel) : Prop :=
  ∀ r, 1 ≤ r → r + 1 < win.maxY → r ≠ win.y.toNat → p.attr r = rowAttr mem win r

/-- The row of the cursor is highlighted by `a`, and the others have the attributes of their
    entries. -/
structure Paint.Shows (p : Paint) (mem : Memory Dir) (win : Panel) (a : RowAttr) : Prop where
  cursor : p.cursor = some win.y.toNat
  row : p.attr win.y.toNat = a
  others : p.Others mem win

variable {mem : Memory Dir} {win win' : Panel} {p : Paint} {a : RowAttr}

/-- `mvwchgat` highlights the row. -/
theorem Paint.Others.mvwchgat (h : p.Others mem win) (hy : win.y.toNat < win.maxY) (a : RowAttr) :
    (p.mvwchgat win.maxY win.y.toNat a).Shows mem win a := by
  rw [Paint.mvwchgat, if_pos hy]
  refine ⟨rfl, Function.update_self .., fun r hpos hlt hr => ?_⟩
  exact (Function.update_of_ne hr ..).trans (h r hpos hlt hr)

theorem Paint.rendered_others (mem : Memory Dir) (win : Panel) :
    (Paint.rendered mem win).Others mem win :=
  fun _ hpos hlt _ => if_pos ⟨hpos, hlt⟩

/-- What a window shows does not depend on where `work_dir` points and which panel is active. -/
theorem Paint.Others.congr {mem' : Memory Dir} (h : p.Others mem win) (hl : win.Listed mem)
    (hk : mem.KeepsTypes mem') (ref : StrRef) (active : Bool) :
    p.Others mem' { win with workDir := ref, active := active } :=
  fun r hpos hlt hr => (h r hpos hlt hr).trans (rowAttr_of_keeps hl hk r).symm

/-- `CoordControl` without a redraw leaves the entries in their rows. -/
theorem coordControl_still {os : Os Dir} {pr : Process Dir} (hno : win.redraws = false)
    (h : coordControl os pr win = .ok win') : win'.listBegin = win.listBegin := by
  have hstill : ¬ (win.dirNum > win.size ∧ (win.y ≥ win.size ∨ win.y < 1)) := by
    simpa [Panel.redraws] using hno
  unfold coordControl at h
  by_cases hgt : win.dirNum > win.size
  · have hlow : ¬ win.y ≥ win.size := fun hy => hstill ⟨hgt, .inl hy⟩
    have hhigh : ¬ win.y < 1 := fun hy => hstill ⟨hgt, .inr hy⟩
    rw [if_pos hgt, if_neg hlow, if_neg hhigh] at h
    cases h
    rfl
  · rw [if_neg hgt] at h
    split at h
    · cases h
      rfl
    · split at h
      all_goals
        cases h
        rfl

/-! ### One key -/

/-- The row the cursor leaves gets the attributes of its entry back. -/
theorem Paint.Shows.wchgat (h : p.Shows mem win a) (b : RowAttr) :
    ∃ q, p.wchgat b = some q ∧ q.cursor = some win.y.toNat ∧ q.attr win.y.toNat = b ∧
      q.Others mem win := by
  refine ⟨{ p with attr := Function.update p.attr win.y.toNat b }, ?_, h.cursor,
    Function.update_self .., fun r hpos hlt hr => ?_⟩
  · rw [Paint.wchgat, h.cursor]
    rfl
  · exact (Function.update_of_ne hr ..).trans (h.others r hpos hlt hr)

/-- **A cursor key** leaves the other rows with the attributes of their entries. -/
theorem paintMove_others {os : Os Dir} {pr : Process Dir} {y o : UInt32} {size : Nat}
    (h : p.Shows pr.mem win a) (hin : win.InOrder pr.mem size)
    (hw : coordControl os pr { win with y := y, selectedObj := o } = .ok win')
    (hy : win'.y.toNat < win'.maxY) :
    ∃ q, Painted.paintMove pr.mem win { win with y := y, selectedObj := o } win' p = some q ∧
      q.Others pr.mem win' := by
  have hagrees := hin.agrees
  obtain ⟨e, he⟩ := hin.listed.entry hagrees.selected_lt
  obtain ⟨q, hq, hcursor, hrow, hothers⟩ := h.wchgat e.attr
  -- the row that is left shows the selected entry
  have hattr : rowAttr pr.mem win win.y.toNat = e.attr := by
    rw [rowAttr, if_pos (by rw [← hagrees.selected]; exact hagrees.selected_lt),
      ← hagrees.selected, he]
  obtain ⟨hsame, -⟩ := coordControl_frame hw
  have hmoved : Paint.Others (if Panel.redraws { win with y := y, selectedObj := o } then
      .rendered pr.mem win' else q) pr.mem win' := by
    split
    · exact Paint.rendered_others _ _
    · rename_i hno
      have hbegin := coordControl_still (Bool.eq_false_iff.mpr hno) hw
      intro r hpos hlt hr
      have hrowAttr : rowAttr pr.mem win' r = rowAttr pr.mem win r := by
        rw [rowAttr, rowAttr, hbegin, hsame.dirNum, hsame.nameList]
      rw [hrowAttr]
      by_cases hrow' : r = win.y.toNat
      · rw [hrow', hrow, hattr]
      · exact hothers r hpos (by rw [← hsame.maxY]; exact hlt) hrow'
  refine ⟨_, ?_, (hmoved.mvwchgat hy .bold).others⟩
  rw [Painted.paintMove, he]
  show (p.wchgat e.attr).bind _ = _
  rw [hq]
  rfl

/-- The windows show the panels of the state: the cursor of the active panel in bold, the other
    dim. -/
def Painted.Shows (s : Painted Dir) : Prop :=
  ∀ i, (s.paint i).Shows s.state.proc.mem (s.state.win i) (if i = s.state.side then .bold else .dim)

section Keys

variable {os : Os Dir} {s : Painted Dir} {t : State Dir} {size : Nat}

/-- The row of the cursor is in the window. -/
theorem State.InOrder.y_lt (h : t.InOrder size) (i : Side) :
    (t.win i).y.toNat < (t.win i).maxY := by
  have hmaxY := (h i).maxY
  have hy := (h i).agrees.row_le
  have hsize : (t.win i).size.toNat = size := by
    obtain ⟨n, c, hc⟩ := (h i).cursor
    exact hc.size
  omega

/-- The top of the loop highlights what the handlers left. -/
theorem Painted.shows_highlight {paint : Side → Paint} (hin : t.InOrder size)
    (h : ∀ i, (paint i).Others t.proc.mem (t.win i)) : (Painted.highlight t paint).Shows :=
  fun i => (h i).mvwchgat (hin.y_lt i) _

/-- A panel and its window replaced on one side. -/
theorem others_update {i : Side} {w : Panel} {q : Paint} {pr : Process Dir} (h : s.Shows)
    (hin : s.state.InOrder size) (hk : s.state.proc.mem.KeepsTypes pr.mem)
    (hq : q.Others pr.mem w) :
    ∀ j, (Function.update s.paint i q j).Others (s.state.update i w pr).proc.mem
      ((s.state.update i w pr).win j) := by
  intro j
  rw [State.proc_update]
  by_cases hj : j = i
  · subst hj
    rw [Function.update_self, State.win_update_self]
    exact hq
  · rw [Function.update_of_ne hj, State.win_update_of_ne _ _ _ _ _ hj]
    exact (h j).others.congr (hin j).listed hk (s.state.win j).workDir (s.state.win j).active

/-- `KEY_UP` and `KEY_DOWN`. -/
theorem paintMove_cases {y o : UInt32} {w : Panel} (h : s.Shows) (hin : s.state.InOrder size)
    (hin' : (s.state.update s.state.side w s.state.proc).InOrder size)
    (hw : coordControl os s.state.proc
      { s.state.win s.state.side with y := y, selectedObj := o } = .ok w) :
    ∃ q, Painted.paintMove s.state.proc.mem (s.state.win s.state.side)
        { s.state.win s.state.side with y := y, selectedObj := o }
        ((s.state.update s.state.side w s.state.proc).win s.state.side)
        (s.paint s.state.side) = some q ∧
      ∀ i, (Function.update s.paint s.state.side q i).Others
        (s.state.update s.state.side w s.state.proc).proc.mem
        ((s.state.update s.state.side w s.state.proc).win i) := by
  have hy := hin'.y_lt s.state.side
  rw [State.win_update_self] at hy ⊢
  obtain ⟨q, hq, hothers⟩ := paintMove_others (h s.state.side) (hin s.state.side) hw hy
  exact ⟨q, hq, others_update h hin (.refl _) hothers⟩

/-- What `TAB` does to a panel. -/
theorem win_switched (s : State Dir) (cwd : Dir) (i : Side) :
    ∃ active, (s.switched cwd).win i = { s.win i with active := active } := by
  cases i with
  | left => exact ⟨!s.leftWin.active, rfl⟩
  | right => exact ⟨s.rightWin.active, rfl⟩

/-- `ENTER` draws the window of the active panel anew, or leaves it after a `ListDir` that fails. -/
theorem paintEnter_cases (h : s.Shows) (hin : s.state.InOrder size)
    (ht : handleKey os s.state .ENTER = .ok t) :
    ∃ w pr q, t = s.state.update s.state.side w pr ∧ s.state.proc.mem.KeepsTypes pr.mem ∧
      Painted.paintEnter os s.state t (s.paint s.state.side) = some q ∧ q.Others pr.mem w := by
  obtain ⟨e, he⟩ := (hin s.state.side).listed.entry (hin s.state.side).agrees.selected_lt
  have hpaint : Painted.paintEnter os s.state t (s.paint s.state.side) =
      if s.state.side = .left ∧ e.dType = DT_EXEC then
        some (Paint.rendered t.proc.mem (t.win s.state.side))
      else (selectedName s.state.proc.mem (s.state.win s.state.side)).toOption.bind fun ref =>
        (listDir os { s.state.win s.state.side with workDir := ref } s.state.proc).toOption.bind
          fun r => some (if r.1 = -1 then s.paint s.state.side
            else Paint.rendered t.proc.mem (t.win s.state.side)) := by
    rw [Painted.paintEnter, he]
    rfl
  by_cases hx : s.state.side = .left ∧ e.dType = DT_EXEC
  · -- a program was run, and the panel is drawn again
    have ha : s.state.leftWin.active = true := by
      by_contra ha
      rw [State.side, if_neg ha] at hx
      cases hx.1
    rw [hx.1] at he
    unfold handleKey at ht
    rw [if_pos ha, enterLeft, show s.state.proc.mem.entry s.state.leftWin.nameList
      s.state.leftWin.selectedObj.toNat = .ok e from he] at ht
    obtain ⟨w, -, ht⟩ := bind_eq_ok.mp (Eq.trans (if_pos hx.2).symm ht)
    have ht' : t = s.state.update .left w (tryExec os e.dName s.state.proc).2 :=
      (Except.ok.inj ht).symm
    rw [if_pos hx, hx.1] at hpaint
    refine ⟨w, _, _, by rw [hx.1]; exact ht', ?_, by rw [hx.1]; exact hpaint, ?_⟩
    · rw [mem_tryExec]
      exact .refl _
    · rw [ht', State.proc_update, State.win_update_self]
      exact Paint.rendered_others _ _
  · have hopens : s.state.side = .left → ¬ s.state.SelectsExec := by
      rintro hside ⟨e', he', hexec⟩
      rw [he] at he'
      cases he'
      exact hx ⟨hside, hexec⟩
    rw [handleKey_enter hopens] at ht
    obtain ⟨ref, href, ht⟩ := bind_eq_ok.mp ht
    obtain ⟨⟨ret, w, pr⟩, hlist, ht⟩ := bind_eq_ok.mp ht
    have hkeeps := Memory.KeepsTypes.listDir hlist
    have hq : Painted.paintEnter os s.state t (s.paint s.state.side) = some (if ret = -1 then
        s.paint s.state.side else Paint.rendered t.proc.mem (t.win s.state.side)) := by
      rw [hpaint, if_neg hx, href]
      show (Except.toOption (listDir os _ _)).bind _ = _
      rw [show listDir os { s.state.win s.state.side with workDir := ref } s.state.proc =
        .ok (ret, w, pr) from hlist]
      rfl
    rcases afterListDir_cases ht with ⟨hret, rfl⟩ | ⟨w', hw', hret, rfl⟩
    · -- `ListDir` failed
      rw [if_pos hret] at hq
      refine ⟨w, pr, _, rfl, hkeeps, hq, ?_⟩
      obtain ⟨-, rfl, -⟩ | ⟨hzero, -⟩ := listDir_ret hlist
      · exact (h s.state.side).others.congr (hin s.state.side).listed hkeeps ref
          (s.state.win s.state.side).active
      · omega
    · rw [if_neg hret, State.proc_update, State.win_update_self] at hq
      exact ⟨w', pr, _, rfl, hkeeps, hq, Paint.rendered_others _ _⟩

/-- **A key** leaves the rows with the attributes of their entries, but for those of the cursors. -/
theorem paintKey_others {k : Key} (h : s.Shows) (hin : s.state.InOrder size)
    (hin' : t.InOrder size) (ht : handleKey os s.state k = .ok t) :
    ∃ paint, s.paintKey os t k = some paint ∧ ∀ i, (paint i).Others t.proc.mem (t.win i) := by
  cases k with
  -- the cursor keys paint the rows between the old and the new place of the cursor
  | KEY_UP =>
    obtain ⟨w, hw, rfl⟩ := moveCursor_cases ht
    unfold keyUp at hw
    obtain ⟨-, -, hw⟩ := bind_eq_ok.mp hw
    obtain ⟨q, hq, hothers⟩ := paintMove_cases h hin hin' hw
    exact ⟨_, by rw [Painted.paintKey, hq]; rfl, hothers⟩
  | KEY_DOWN =>
    obtain ⟨w, hw, rfl⟩ := moveCursor_cases ht
    unfold keyDown at hw
    obtain ⟨-, -, hw⟩ := bind_eq_ok.mp hw
    obtain ⟨q, hq, hothers⟩ := paintMove_cases h hin hin' hw
    exact ⟨_, by rw [Painted.paintKey, hq]; rfl, hothers⟩
  | TAB =>
    -- each window gets the other highlight, where its cursor is already
    obtain ⟨path, -, rfl⟩ := tab_cases ht
    obtain ⟨q, hq, -, -, hothers⟩ := (h s.state.side).wchgat .dim
    obtain ⟨r, hr, -, -, hothers'⟩ := (h s.state.side.other).wchgat .bold
    refine ⟨_, by rw [Painted.paintKey]; simp only [hq, hr]; rfl, fun i => ?_⟩
    obtain ⟨active, hwin⟩ := win_switched s.state (os.enter s.state.proc.cwd path) i
    rw [hwin]
    -- the painting of each window ends at its own highlight
    have hsame : ((Function.update (Function.update s.paint s.state.side q) s.state.side.other r)
        i).Others s.state.proc.mem (s.state.win i) := by
      by_cases hi : i = s.state.side.other
      · rw [hi, Function.update_self]
        exact hothers'
      · rw [Function.update_of_ne hi]
        have hi' : i = s.state.side := by
          revert hi
          cases i <;> cases s.state.side <;> simp [Side.other]
        rw [hi', Function.update_self]
        exact hothers
    exact hsame.congr (hin i).listed (.refl _) (s.state.win i).workDir active
  | ENTER =>
    obtain ⟨w, pr, q, rfl, hkeeps, hq, hothers⟩ := paintEnter_cases h hin ht
    exact ⟨_, by rw [Painted.paintKey]; simp only [hq]; rfl, others_update h hin hkeeps hothers⟩

/-- **A turn of the loop** goes through whenever its handler does, and keeps the windows. -/
theorem Painted.Shows.next {k : Key} (h : s.Shows) (hin : s.state.InOrder size) (hs : 2 ≤ size)
    (hs31 : size + 2 < 2 ^ 32) (hos : os ∈ populated) (ht : handleKey os s.state k = .ok t) :
    ∃ u, s.next (k, os) = some u ∧ u.state = t ∧ u.state.InOrder size ∧ u.Shows := by
  have hin' := handleKey_inOrder hin hs hs31 hos ht
  obtain ⟨paint, hpaint, hothers⟩ := paintKey_others h hin hin' ht
  refine ⟨_, ?_, rfl, hin', Painted.shows_highlight hin' hothers⟩
  have hnext : s.state.next (k, os) = some t := State.next_eq_some.mpr ht
  rw [Painted.next, hnext]
  show (s.paintKey os t k).bind _ = _
  rw [hpaint]
  rfl

/-- In every reachable state both panels are in order and their windows show them. -/
theorem shows_of_reachable {b : Boot Dir} (hb : 2 ≤ b.usable)
    (hs : (paintedManager b populated).Reachable s) : s.state.InOrder b.usable ∧ s.Shows := by
  have h32 := (Boot.usable_lt hb).2
  have hinv : (paintedManager b populated).Invariant fun s =>
      s.state.InOrder b.usable ∧ s.Shows :=
    { base := by
        rintro s ⟨osR, hR, osL, hL, t, ht, rfl⟩
        have hin := start_inOrder ht hR hL hb
        exact ⟨hin, Painted.shows_highlight hin fun i => Paint.rendered_others _ _⟩
      keep := by
        rintro s ⟨k, os⟩ u ⟨hin, h⟩ ⟨hos, hu⟩
        obtain ⟨t, ht, -⟩ := Option.bind_eq_some_iff.mp hu
        obtain ⟨u', hu', -, hin', h'⟩ := h.next hin hb h32 hos (State.next_eq_some.mp ht)
        rw [hu'] at hu
        cases hu
        exact ⟨hin', h'⟩ }
  exact hinv.of_reachable hs

end Keys

/-- **The highlight follows the cursor.**  On a terminal with two usable rows or more, and with two
    entries or more in every directory, after every sequence of keys and whatever the system calls
    return: in each panel one row is highlighted, in bold in the active panel and dim in the other,
    it is the row of the entry that `ENTER` opens, and every other row between the lines of the box
    has the attributes of its entry.  No key finds the cursor of a window elsewhere. -/
theorem highlight_follows (b : Boot Dir) (hb : 2 ≤ b.usable) {s : Painted Dir}
    (hs : (paintedManager b populated).Reachable s) (i : Side) :
    (∀ r, 1 ≤ r → r + 1 < (s.state.win i).maxY → (s.paint i).attr r =
        if (s.state.win i).listBegin.toNat + r = (s.state.win i).selectedObj.toNat then
          if i = s.state.side then .bold else .dim
        else rowAttr s.state.proc.mem (s.state.win i) r) ∧
      ∀ k, ∀ os ∈ populated, ∀ t, handleKey os s.state k = .ok t →
        ∃ u, s.next (k, os) = some u ∧ u.state = t := by
  obtain ⟨hin, h⟩ := shows_of_reachable hb hs
  refine ⟨fun r hpos hlt => ?_, fun k os hos t ht => ?_⟩
  · have hagrees := (hin i).agrees
    have hselected := hagrees.selected
    by_cases hr : r = (s.state.win i).y.toNat
    · rw [hr, if_pos hselected.symm]
      exact (h i).row
    · rw [if_neg (by omega)]
      exact (h i).others r hpos hlt hr
  · obtain ⟨u, hu, hstate, -⟩ := h.next hin hb (Boot.usable_lt hb).2 hos ht
    exact ⟨u, hu, hstate⟩

/-- A directory of three entries: `KEY_DOWN` leaves the second one and highlights the third. -/
theorem highlight_follows_after_down : ∃ s, (paintedManager singleBoot populated).Reachable s ∧
    s.state.leftWin.selectedObj = 2 ∧ (s.paint .left).attr 2 = .bold ∧
      (s.paint .left).attr 1 = .plain := by
  have hos : singleDir ∈ populated := fun _ => show 2 ≤ 3 by decide
  obtain ⟨s, hs, t, ht, hsel⟩ : ∃ s, (paintedManager singleBoot populated).Reachable s ∧
      ∃ t, handleKey singleDir s.state .KEY_DOWN = .ok t ∧ t.leftWin.selectedObj = 2 ∧
        t.leftWin.listBegin = 0 ∧ t.leftWin.maxY = 23 ∧ t.side = .left ∧
          rowAttr t.proc.mem t.leftWin 1 = .plain :=
    ⟨_, .init ⟨_, hos, _, hos, _, rfl, rfl⟩, _, rfl, rfl, rfl, rfl, rfl, rfl⟩
  obtain ⟨u, hu, rfl⟩ := (highlight_follows singleBoot (by decide) hs .left).2 _ _ hos t ht
  have hreach : (paintedManager singleBoot populated).Reachable u :=
    .step (l := (.KEY_DOWN, singleDir)) hs ⟨hos, hu⟩
  obtain ⟨hsel, hbegin, hmaxY, hside, hattr⟩ := hsel
  have hrows := (highlight_follows singleBoot (by decide) hreach .left).1
  have hwin : u.state.win .left = u.state.leftWin := rfl
  rw [hwin, hbegin, hsel, hmaxY, hside] at hrows
  exact ⟨u, hreach, hsel, hrows 2 (by decide) (by decide),
    (hrows 1 (by decide) (by decide)).trans hattr⟩

end EltexHomeworks.FileManager
