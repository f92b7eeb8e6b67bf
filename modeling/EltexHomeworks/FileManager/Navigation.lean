import EltexHomeworks.FileManager.Enter
import EltexHomeworks.FileManager.WorkDirRun
import EltexHomeworks.Lib.Simulation

namespace EltexHomeworks.FileManager

open EltexHomeworks.Lib
open EltexHomeworks.Lib.ScrollCursor (Move)

/-!
# File manager — where the keys lead in a file tree

With `TAB` left out, a panel walks from directory to directory.  `FileTree.Enters` is that walk
without panels, cursors and memory: a step goes to the directory that an entry names, any but the
one with index 0.

* `listDir_lists` — `ListDir` makes a step of the walk;
* `navigation_iff` — cursor keys and `ENTER` lead to the directories that the walk leads to, and to
  no others.
-/

variable {Dir : Type}

/-! ### The walk -/

namespace FileTree

variable (t : FileTree Dir)

/-- The listing `ListDir` makes of the directory `d`, unless a `lstat` fails. -/
def listing (d : Dir) : Except Stop (Listing Dir) :=
  lstatAll (t.os [] true) d ⟨d, (t.readdir d).1, (t.readdir d).2⟩

/-- The directory that the name leads to from `c`; for `..` that is the one `getcwd` names after
    `chdir`. -/
def target (c : Dir) (name : Str) : Option Dir :=
  if name = dotDot then (t.getcwd (t.up c)).bind (t.opendir (t.up c)) else t.opendir c name

/-- An entry of `c` leads to `d`: any but the one with index 0, to which the cursor does not come,
    and, on the left, any but an executable, which is run. -/
def Enters (i : Side) (c d : Dir) : Prop :=
  ∃ l k e l', t.listing c = .ok l ∧ 1 ≤ k ∧ l.entries[k]? = some e ∧
    (i = .left → e.dType ≠ DT_EXEC) ∧ t.target c e.dName = some d ∧ t.listing d = .ok l'

/-- Every directory has `.` and `..`, and what its entries name can be opened as `Opens` says. -/
structure Open : Prop where
  populated : ∀ d, 2 ≤ (t.readdir d).1.length
  opens : ∀ d, ∀ e ∈ (t.readdir d).1, t.Opens d e.dName

variable {t}

theorem Open.mem_populated (h : t.Open) {os : Os Dir} (hos : os ∈ t.world) :
    os ∈ FileManager.populated := by
  obtain ⟨malloc, fork, rfl⟩ := hos
  exact h.populated

/-- The entries of a listing have the names of the directory. -/
theorem listing_spec {d : Dir} {l : Listing Dir} (h : t.listing d = .ok l) :
    l.names = (t.readdir d).1.map (·.dName) := (lstatAll_keeps h).2

theorem Open.opens_entry (h : t.Open) {d : Dir} {l : Listing Dir} (hl : t.listing d = .ok l)
    {e : Dirent} (he : e ∈ l.entries) : t.Opens d e.dName := by
  have hname : e.dName ∈ l.names := List.mem_map_of_mem he
  rw [listing_spec hl] at hname
  obtain ⟨e', he', hdName⟩ := List.mem_map.mp hname
  rw [← hdName]
  exact h.opens d e' he'

end FileTree

/-! ### `ListDir` is a step of the walk -/

variable {t : FileTree Dir} {os : Os Dir} {win w : Panel} {p p' : Process Dir} {name : Str}

/-- Where `ListDir` calls `scandir`, and where it goes if something is found. -/
theorem lookup_target (malloc : Str) (fork : Bool) {c : Dir} (ho : t.Opens c name) :
    t.target c name = t.opendir ((t.os malloc fork).lookup c name).1
        ((t.os malloc fork).lookup c name).2 ∧
      (name = dotDot → t.target c name ≠ none) ∧
      ∀ d, t.target c name = some d →
        (t.os malloc fork).enter ((t.os malloc fork).lookup c name).1
          ((t.os malloc fork).lookup c name).2 = d := by
  unfold FileTree.Opens at ho
  unfold FileTree.target
  by_cases hdot : name = dotDot
  · rw [if_pos hdot] at ho
    obtain ⟨path, hcwd, hopen, hch⟩ := ho
    have hlookup : (t.os malloc fork).lookup c name = (t.up c, path) := by
      rw [Os.lookup, if_pos hdot]
      show (t.up c, (t.getcwd (t.up c)).getD malloc) = _
      rw [hcwd]
      rfl
    rw [if_pos hdot, hcwd, hlookup, Option.bind_some]
    exact ⟨rfl, fun _ => hopen, fun d hd => (FileTree.enter_eq malloc fork hd hch).1⟩
  · rw [if_neg hdot] at ho
    have hlookup : (t.os malloc fork).lookup c name = (c, name) := if_neg hdot
    rw [if_neg hdot, hlookup]
    refine ⟨rfl, fun hname => absurd hname hdot, fun d hd => ?_⟩
    exact (FileTree.enter_eq malloc fork hd (ho (by rw [hd]; exact Option.some_ne_none d))).1

/-- **`ListDir`** fails, with nothing changed, where the walk has no step, and otherwise exits or
    makes the listing of the directory that the step leads to. -/
theorem listDir_lists (hos : os ∈ t.world) (hname : p.mem.read win.workDir = .ok name)
    (ho : t.Opens p.cwd name) :
    (∀ ret w p', t.target p.cwd name = none → listDir os win p = .ok (ret, w, p') →
      ret = -1 ∧ w = win ∧ p' = p) ∧
    ∀ d, t.target p.cwd name = some d →
      (∀ stop, t.listing d = .error stop → listDir os win p = .error stop) ∧
        ∀ l, t.listing d = .ok l → ∃ w p', listDir os win p = .ok (0, w, p') ∧
          w.active = win.active ∧ p'.cwd = d ∧ p'.mem.list w.nameList = .ok l := by
  obtain ⟨malloc, fork, rfl⟩ := hos
  obtain ⟨htarget, hdot, henter⟩ := lookup_target malloc fork ho
  have hlist := @listDir_of_read Dir (t.os malloc fork) win p name hname
  rw [locate_cwd] at hlist
  constructor
  · -- where the walk has no step, `scandir` fails, and `..` is no such place
    intro ret w p' hnone h
    have hscan : (t.os malloc fork).scandir ((t.os malloc fork).lookup p.cwd name).1
        ((t.os malloc fork).lookup p.cwd name).2 = none := by
      rw [Os.scandir, show (t.os malloc fork).opendir = t.opendir from rfl, ← htarget, hnone]
      rfl
    have hlocate : locate (t.os malloc fork) win p name = p := if_neg fun hd => hdot hd hnone
    rw [hlist, hscan, hlocate] at h
    dsimp only at h
    cases hentry : p.mem.entry win.nameList win.selectedObj.toNat with
    | error stop => rw [hentry] at h; cases h
    | ok e => rw [hentry] at h; cases h; exact ⟨rfl, rfl, rfl⟩
  · -- where it has one, `scandir` gives the entries of its end
    intro d hd
    have hscan : (t.os malloc fork).scandir ((t.os malloc fork).lookup p.cwd name).1
        ((t.os malloc fork).lookup p.cwd name).2 =
        some ⟨d, (t.readdir d).1, (t.readdir d).2⟩ := by
      rw [Os.scandir, show (t.os malloc fork).opendir = t.opendir from rfl, ← htarget, hd]
      rfl
    rw [hscan] at hlist
    dsimp only at hlist
    rw [henter d hd] at hlist
    -- the loop over the entries makes the listing, whatever `malloc` and `fork` do
    change listDir (t.os malloc fork) win p = (t.listing d).map _ at hlist
    constructor
    · intro stop hstop
      rw [hlist, hstop]
      rfl
    · intro l hl
      rw [hl] at hlist
      exact ⟨_, _, hlist, rfl, rfl, Memory.list_alloc _ _⟩

/-! ### The panel on its walk -/

/-- The process is in `d`, and the active panel shows the listing of `d`. -/
structure State.In (t : FileTree Dir) (size : Nat) (s : State Dir) (d : Dir) : Prop where
  inOrder : s.InOrder size
  cwd : s.proc.cwd = d
  listing : ∃ l, t.listing d = .ok l ∧ s.proc.mem.list (s.win s.side).nameList = .ok l

/-- `ENTER` on an executable in the left panel runs it. -/
theorem enter_exec {s s' : State Dir} {e : Dirent} (hside : s.side = .left)
    (he : s.proc.mem.entry (s.win s.side).nameList (s.win s.side).selectedObj.toNat = .ok e)
    (hx : e.dType = DT_EXEC) (h : handleKey os s .ENTER = .ok s') : RunsSelected os s s' := by
  have hactive : s.leftWin.active = true := by
    by_contra hnot
    rw [State.side, if_neg hnot] at hside
    cases hside
  rw [hside] at he
  unfold handleKey at h
  rw [if_pos hactive, enterLeft, show s.proc.mem.entry s.leftWin.nameList
    s.leftWin.selectedObj.toNat = .ok e from he] at h
  obtain ⟨w, hw, h⟩ := bind_eq_ok.mp ((if_pos hx).symm.trans h)
  cases h
  rw [RunsSelected, hside]
  exact ⟨e.dName, w, hw, rfl⟩

namespace State.In

variable {s s' : State Dir} {size : Nat} {c d : Dir}

/-- A key that keeps the directory, the arrays in memory and the listing of the panel. -/
theorem same (h : s.In t size c) (hs' : s'.InOrder size)
    (hcwd : s'.proc.cwd = s.proc.cwd)
    (hlist : s'.proc.mem.list (s'.win s'.side).nameList =
      s.proc.mem.list (s.win s.side).nameList) : s'.In t size c := by
  obtain ⟨l, hl, hmem⟩ := h.listing
  exact ⟨hs', hcwd.trans h.cwd, l, hl, hlist.trans hmem⟩

/-- A cursor key stays in the directory. -/
theorem cursor (h : s.In t size c) (ht : t.Open) (hos : os ∈ t.world) (hsize : 2 ≤ size)
    (hlt : size + 2 < 2 ^ 32) (m : Move) (hk : handleKey os s (cursorKey m) = .ok s') :
    s'.In t size c ∧ s'.side = s.side := by
  have horder := handleKey_inOrder h.inOrder hsize hlt (ht.mem_populated hos) hk
  obtain ⟨w, hw, rfl⟩ : ∃ w, ((∃ move, (move = keyUp os ∨ move = keyDown os) ∧
      move s.proc (s.win s.side) = .ok w) ∧ s' = s.update s.side w s.proc) := by
    cases m with
    | up =>
      obtain ⟨w, hw, hs⟩ := moveCursor_cases hk
      exact ⟨w, ⟨_, .inl rfl, hw⟩, hs⟩
    | down =>
      obtain ⟨w, hw, hs⟩ := moveCursor_cases hk
      exact ⟨w, ⟨_, .inr rfl, hw⟩, hs⟩
  obtain ⟨move, hmove, hw⟩ := hw
  have hsame := (move_frame hmove hw).1
  have hside : (s.update s.side w s.proc).side = s.side := s.side_update _ _ _ hsame.active
  refine ⟨h.same horder (by rw [State.proc_update]) ?_, hside⟩
  rw [hside, State.win_update_self, State.proc_update, hsame.nameList]

/-- The entry the cursor is on. -/
theorem exists_entry (h : s.In t size c) :
    ∃ l k e, t.listing c = .ok l ∧ (s.win s.side).selectedObj.toNat = k ∧ 1 ≤ k ∧
      l.entries[k]? = some e ∧ s.proc.mem.entry (s.win s.side).nameList k = .ok e := by
  obtain ⟨l, hl, hmem⟩ := h.listing
  obtain ⟨_, ⟨n, cur, hcur⟩, hlisted, -⟩ := h.inOrder s.side
  have hent := cur.entry_lt
  obtain ⟨e, he⟩ := hlisted.entry (i := (s.win s.side).selectedObj.toNat)
    (by rw [hcur.selectedObj, hcur.dirNum]; exact hent)
  refine ⟨l, _, e, hl, rfl, by rw [hcur.selectedObj]; exact cur.entry_pos, ?_, he⟩
  have he' := he
  rw [Memory.entry, hmem] at he'
  exact orUndefined_eq_ok.mp he'

/-- **`ENTER`** stays in the directory, or makes a step of the walk: into a directory of the
    listing, or to the one above.  An executable is run, and the directory stays. -/
theorem enter (h : s.In t size c) (ht : t.Open) (hos : os ∈ t.world) (hsize : 2 ≤ size)
    (hlt : size + 2 < 2 ^ 32) (hk : handleKey os s .ENTER = .ok s') :
    ∃ d, s'.In t size d ∧ s'.side = s.side ∧ (d = c ∨ t.Enters s.side c d) := by
  have horder := handleKey_inOrder h.inOrder hsize hlt (ht.mem_populated hos) hk
  obtain ⟨l, k, e, hl, hsel, hpos, hget, he⟩ := h.exists_entry
  -- a program that runs leaves directory and listing alone
  have hruns : RunsSelected os s s' →
      ∃ d, s'.In t size d ∧ s'.side = s.side ∧ (d = c ∨ t.Enters s.side c d) := by
    rintro ⟨name, w, hw, rfl⟩
    obtain ⟨dr, rfl, -⟩ := renderingListDir_frame hw
    have hside := s.side_update s.side { s.win s.side with drawn := some dr }
      (tryExec os name s.proc).2 rfl
    refine ⟨c, h.same horder ?_ ?_, hside, .inl rfl⟩
    · rw [State.proc_update]
      unfold tryExec
      split <;> rfl
    · rw [hside, State.win_update_self, State.proc_update, mem_tryExec]
  by_cases hx : s.side = .left ∧ e.dType = DT_EXEC
  · exact hruns (enter_exec hx.1 (by rw [hsel]; exact he) hx.2 hk)
  rcases enter_cases hk with ⟨ref, ret, w, p, href, hlist, hcase⟩ | hrun
  · obtain ⟨id, e', hid, he', rfl, hread⟩ := selectedName_eq_ok href
    rw [hsel, he] at he'
    cases he'
    have hopens : t.Opens s.proc.cwd e.dName := by
      rw [h.cwd]
      exact ht.opens_entry hl (List.mem_of_getElem? hget)
    have hname : s.proc.mem.read ({ s.win s.side with
      workDir := .dName id (s.win s.side).selectedObj.toNat } : Panel).workDir = _ := hread
    obtain ⟨hfail, hfound⟩ := listDir_lists hos hname hopens
    cases htarget : t.target s.proc.cwd e.dName with
    | none =>
      -- the entry is no directory: `ListDir` fails, and only `work_dir` changes
      obtain ⟨hret, rfl, rfl⟩ := hfail ret w p htarget hlist
      rcases hcase with ⟨-, rfl⟩ | ⟨w', -, hne, -⟩
      · have hside := s.side_update s.side { s.win s.side with
          workDir := .dName id (s.win s.side).selectedObj.toNat } s.proc rfl
        refine ⟨c, h.same horder (by rw [State.proc_update]) ?_, hside, .inl rfl⟩
        rw [hside, State.win_update_self, State.proc_update]
      · exact absurd hret hne
    | some d =>
      obtain ⟨herror, hok⟩ := hfound d htarget
      cases hl' : t.listing d with
      | error stop => rw [herror stop hl'] at hlist; cases hlist
      | ok l' =>
        obtain ⟨w₁, p₁, hlist', hactive, hcwd, hmem⟩ := hok l' hl'
        rw [hlist'] at hlist
        cases hlist
        rcases hcase with ⟨hret, -⟩ | ⟨w', hw', -, rfl⟩
        · exact absurd hret (by decide)
        · obtain ⟨dr, rfl, -⟩ := renderingListDir_frame hw'
          have hside := s.side_update s.side { w with selectedObj := 1, drawn := some dr } p hactive
          refine ⟨d, ⟨horder, ?_, l', hl', ?_⟩, hside, .inr ?_⟩
          · rw [State.proc_update]
            exact hcwd
          · rw [hside, State.win_update_self, State.proc_update]
            exact hmem
          · rw [h.cwd] at htarget
            exact ⟨l, k, e, l', hl, hpos, hget, fun hleft hexec => hx ⟨hleft, hexec⟩, htarget, hl'⟩
  · exact hruns hrun

/-- A step of the walk from the selected entry is made by `ENTER`. -/
theorem exists_enter (h : s.In t size c) (ht : t.Open) (hos : os ∈ t.world) {l l' : Listing Dir}
    {e : Dirent} (hl : t.listing c = .ok l)
    (hget : l.entries[(s.win s.side).selectedObj.toNat]? = some e)
    (hx : s.side = .left → e.dType ≠ DT_EXEC) (htarget : t.target c e.dName = some d)
    (hl' : t.listing d = .ok l') : ∃ s', handleKey os s .ENTER = .ok s' ∧ s'.proc.cwd = d := by
  -- the selected entry is that of the listing
  obtain ⟨l₀, k, e₀, hl₀, rfl, -, hget₀, he⟩ := h.exists_entry
  rw [hl] at hl₀
  cases hl₀
  rw [hget] at hget₀
  cases hget₀
  have hexec : s.side = .left → ¬ s.SelectsExec := by
    rintro hleft ⟨e', he', hx'⟩
    rw [he] at he'
    cases he'
    exact hx hleft hx'
  -- `ListDir` opens it and lists the directory it leads to
  obtain ⟨id, -, hname, hread⟩ := selectedName_of_entry he
  have hopens : t.Opens s.proc.cwd e.dName := by
    rw [h.cwd]
    exact ht.opens_entry hl (List.mem_of_getElem? hget)
  rw [← h.cwd] at htarget
  have hname' : s.proc.mem.read ({ s.win s.side with
    workDir := .dName id (s.win s.side).selectedObj.toNat } : Panel).workDir = _ := hread
  obtain ⟨w, p', hlist, -, hcwd, -⟩ := ((listDir_lists hos hname' hopens).2 d htarget).2 l' hl'
  obtain ⟨dr, hdraw, -⟩ := renderingListDir_spec os p' { w with selectedObj := 1 }
    (listDir_listed hlist).1
  refine ⟨s.update s.side { w with selectedObj := 1, drawn := some dr } p', ?_, ?_⟩
  · rw [handleKey_enter hexec, openSelected, hname]
    refine bind_eq_ok.mpr ⟨_, rfl, bind_eq_ok.mpr ⟨_, hlist, ?_⟩⟩
    exact (if_neg (by decide)).trans (bind_eq_ok.mpr ⟨_, hdraw, rfl⟩)
  · rw [State.proc_update]
    exact hcwd

end State.In

/-! ### Keys without `TAB` -/

/-- A key for the active panel. -/
abbrev PanelKey := { k : Key // k ≠ .TAB }

/-- One key, as far as it can be handled. -/
def State.panelNext (os : Os Dir) (s : State Dir) (k : PanelKey) : Option (State Dir) :=
  s.next (k.val, os)

/-- The state shows `d` with the panel of `i`. -/
def ShowsOn (t : FileTree Dir) (size : Nat) (i : Side) (s : State Dir) (d : Dir) : Prop :=
  s.In t size d ∧ s.side = i

section Walk

variable {s : State Dir} {size : Nat} {c d : Dir} {i : Side}

/-- Cursor keys bring the cursor to every entry but the first. -/
theorem exists_select (h : ShowsOn t size i s c) (ht : t.Open) (hos : os ∈ t.world)
    (hsize : 2 ≤ size) (hlt : size + 2 < 2 ^ 32) {k : Nat} (hpos : 1 ≤ k)
    (hk : k < (s.win s.side).dirNum.toNat) :
    ∃ u, Leads (State.panelNext os) s u ∧ ShowsOn t size i u c ∧
      (u.win u.side).selectedObj.toNat = k := by
  obtain ⟨_, ⟨n, cur, hcur⟩, hlisted, hdrawn⟩ := h.1.inOrder s.side
  rw [hcur.dirNum] at hk
  obtain ⟨ms, hms⟩ := cur.exists_walk hpos hk
  have hwalk : ∀ (ms : List Move) (s : State Dir) (cur : ScrollCursor n size),
      ShowsOn t size i s c → s.OnCursor cur →
      ∃ u, Leads (State.panelNext os) s u ∧ ShowsOn t size i u c ∧ u.OnCursor (cur.walk ms) := by
    intro ms
    induction ms with
    | nil => exact fun s cur hs hcur => ⟨s, .refl s, hs, hcur⟩
    | cons m ms ih =>
      intro s cur hs hcur
      obtain ⟨u, hu, hucur, -⟩ := hcur.handleKey os m
      obtain ⟨huin, huside⟩ := hs.1.cursor ht hos hsize hlt m hu
      obtain ⟨v, hv, hvin, hvcur⟩ := ih u (cur.move m) ⟨huin, huside.trans hs.2⟩ hucur
      have hstep : State.panelNext os s ⟨cursorKey m, by cases m <;> decide⟩ = some u :=
        State.next_eq_some.mpr hu
      exact ⟨v, (Leads.of_next hstep).trans hv, hvin, hvcur⟩
  obtain ⟨u, hu, huin, hucur⟩ := hwalk ms s cur h ⟨hcur, hlisted, hdrawn⟩
  exact ⟨u, hu, huin, hucur.counters.selectedObj.trans hms⟩

/-- **The panel is a walker** in the tree: the keys pressed in it lead exactly where walks lead that
    enter a listed directory or go up. -/
theorem panel_refines (ht : t.Open) (hos : os ∈ t.world) (hsize : 2 ≤ size)
    (hlt : size + 2 < 2 ^ 32) (i : Side) :
    Refines (State.panelNext os) (t.Enters i) (ShowsOn t size i) where
  functional s c d hc hd := hc.1.cwd.symm.trans hd.1.cwd
  sound s k s' c hs hk := by
    obtain ⟨k, hne⟩ := k
    have hk' := State.next_eq_some.mp hk
    cases k with
    | KEY_UP =>
      -- cursor keys stay in the directory
      obtain ⟨hin, hside⟩ := hs.1.cursor ht hos hsize hlt .up hk'
      exact ⟨c, ⟨hin, hside.trans hs.2⟩, .refl⟩
    | KEY_DOWN =>
      obtain ⟨hin, hside⟩ := hs.1.cursor ht hos hsize hlt .down hk'
      exact ⟨c, ⟨hin, hside.trans hs.2⟩, .refl⟩
    | TAB => exact absurd rfl hne
    | ENTER =>
      obtain ⟨d, hin, hside, hd⟩ := hs.1.enter ht hos hsize hlt hk'
      rw [hs.2] at hd
      refine ⟨d, ⟨hin, hside.trans hs.2⟩, ?_⟩
      -- `ENTER` stays or goes to a directory that the walk comes to in one step
      rcases hd with rfl | hstep
      · exact .refl
      · exact .single hstep
  complete s c d hs hstep := by
    obtain ⟨l, k, e, l', hl, hpos, hget, hx, htarget, hl'⟩ := hstep
    have hlen : k < (s.win s.side).dirNum.toNat := by
      obtain ⟨l₀, hl₀, hmem⟩ := hs.1.listing
      obtain ⟨_, _, ⟨l₁, hl₁, hlen⟩, _⟩ := hs.1.inOrder s.side
      rw [hl] at hl₀
      cases hl₀
      rw [hmem] at hl₁
      cases hl₁
      rw [← hlen]
      exact (List.getElem?_eq_some_iff.mp hget).1
    -- first to the entry, then `ENTER`
    obtain ⟨u, hu, huin, hsel⟩ := exists_select hs ht hos hsize hlt hpos hlen
    obtain ⟨v, hv, hcwd⟩ := huin.1.exists_enter ht hos hl (by rw [hsel]; exact hget)
      (by rw [huin.2]; exact hx) htarget hl'
    obtain ⟨d', hin, hside, -⟩ := huin.1.enter ht hos hsize hlt hv
    rw [hin.cwd] at hcwd
    subst hcwd
    have hstep : State.panelNext os u ⟨.ENTER, by decide⟩ = some v := State.next_eq_some.mpr hv
    exact ⟨v, hu.trans (.of_next hstep), hin, hside.trans huin.2⟩

end Walk

/-! ### From start-up -/

/-- Start-up leaves the left panel active, in the directory the process is in. -/
theorem start_in {osR osL : Os Dir} (hR : osR ∈ t.world) (hL : osL ∈ t.world) {b : Boot Dir}
    (hb : BootFits t b) (ht : t.Open) (hsize : 2 ≤ b.usable) {s : State Dir}
    (h : start osR osL b = .ok s) : ShowsOn t b.usable .left s s.proc.cwd := by
  have horder := start_inOrder h (ht.mem_populated hR) (ht.mem_populated hL) hsize
  obtain ⟨hhome, path, hpath, hopens⟩ := hb
  have habs : Absolute path := t.getcwd_absolute _ _ hpath
  have hbuf : osR.cwdString b.cwd = path := by
    obtain ⟨malloc, fork, rfl⟩ := hR
    show (t.getcwd b.cwd).getD malloc = path
    rw [hpath, Option.getD_some]
  obtain ⟨_, right, pR, dR, _, left, pL, dL, hlistR, -, hlistL, -, rfl⟩ := start_cases h
  -- the listing of the right panel leaves the path for the left one
  obtain ⟨home, _, _, hr, -⟩ := listDir_cases hlistR
  obtain ⟨listR, pathR, htR⟩ := listDir_tracks_of_none hR hlistR hr
    (hhome home (orUndefined_eq_ok.mp hr)) rfl
  have hreadL : pR.mem.read b.left.workDir = .ok path :=
    htR.sameBut.read .buffCurrDir path (by simp [Boot.right]) nofun (congrArg Except.ok hbuf)
  obtain ⟨hfail, hfound⟩ := listDir_lists hL hreadL (hopens.of_absolute habs)
  have hside : State.side ⟨{ left with drawn := some dL }, { right with drawn := some dR }, pL⟩ =
      .left := if_pos (listDir_active hlistL)
  refine ⟨⟨horder, rfl, ?_⟩, hside⟩
  rw [hside]
  cases htarget : t.target pR.cwd path with
  | none => exact absurd (listDir_first hlistL rfl) (by rw [(hfail _ _ _ htarget hlistL).1]; decide)
  | some d =>
    obtain ⟨herror, hok⟩ := hfound d htarget
    cases hl : t.listing d with
    | error stop => rw [herror stop hl] at hlistL; cases hlistL
    | ok l =>
      obtain ⟨w, p', hlist, -, hcwd, hmem⟩ := hok l hl
      rw [hlist] at hlistL
      cases hlistL
      exact ⟨l, by rw [hcwd]; exact hl, hmem⟩

/-- **Navigation.**  After start-up and keys other than `TAB`, the left panel shows the directory
    that the process is in, and the directories that can come up there are exactly those that the
    entries with an index of at least 1 lead to, one after the other.  What a name that sorts before
    `.` leads to is not among them: the cursor does not come to the index 0. -/
theorem navigation_iff {osR osL : Os Dir} (hR : osR ∈ t.world) (hL : osL ∈ t.world)
    (hos : os ∈ t.world) {b : Boot Dir} (hb : BootFits t b) (ht : t.Open) (hsize : 2 ≤ b.usable)
    {s : State Dir} (h : start osR osL b = .ok s) :
    (∀ s', Leads (State.panelNext os) s s' → ShowsOn t b.usable .left s' s'.proc.cwd) ∧
      ∀ d, (∃ s', Leads (State.panelNext os) s s' ∧ ShowsOn t b.usable .left s' d) ↔
        Relation.ReflTransGen (t.Enters .left) s.proc.cwd d := by
  have hstart := start_in hR hL hb ht hsize h
  have hpanel := panel_refines ht hos hsize (Boot.usable_lt hsize).2 .left
  refine ⟨?_, fun d => hpanel.leads_iff hstart d⟩
  rintro s' ⟨keys, hrun⟩
  obtain ⟨d, hd, -⟩ := hpanel.sound_run hstart hrun
  rw [hd.1.cwd]
  exact hd

/-- From `/w` the keys lead to `/h/a`. -/
theorem navigation_iff_small :
    ∃ s s', start SmallDir.os SmallDir.os SmallDir.boot = .ok s ∧ s.proc.cwd = SmallDir.w ∧
      Leads (State.panelNext SmallDir.os) s s' ∧
      ShowsOn SmallDir.tree SmallDir.boot.usable .left s' SmallDir.ha := by
  have ht : SmallDir.tree.Open := by
    refine ⟨fun d => by cases d <;> decide, fun d e _ => ?_⟩
    unfold FileTree.Opens
    split
    · exact ⟨_, rfl, by cases d <;> decide, by cases d <;> decide⟩
    · exact fun h => h
  obtain ⟨s, hs, hcwd⟩ : ∃ s, start SmallDir.os SmallDir.os SmallDir.boot = .ok s ∧
      s.proc.cwd = SmallDir.w := ⟨_, rfl, rfl⟩
  have hstep : ∀ c d (k : Nat), (∃ l e l', SmallDir.tree.listing c = .ok l ∧ 1 ≤ k ∧
      l.entries[k]? = some e ∧ (e.dType ≠ DT_EXEC) ∧ SmallDir.tree.target c e.dName = some d ∧
      SmallDir.tree.listing d = .ok l') → SmallDir.tree.Enters .left c d := by
    rintro c d k ⟨l, e, l', hl, hk, hget, hx, htarget, hl'⟩
    exact ⟨l, k, e, l', hl, hk, hget, fun _ => hx, htarget, hl'⟩
  have hwalk : Relation.ReflTransGen (SmallDir.tree.Enters .left) SmallDir.w SmallDir.ha := by
    refine .head (b := SmallDir.root) (hstep _ _ 1 ⟨_, _, _, rfl, by decide, rfl, by decide, rfl,
      rfl⟩) ?_
    refine .head (b := SmallDir.h) (hstep _ _ 2 ⟨_, _, _, rfl, by decide, rfl, by decide, rfl,
      rfl⟩) ?_
    exact .single (hstep _ _ 2 ⟨_, _, _, rfl, by decide, rfl, by decide, rfl, rfl⟩)
  obtain ⟨-, hnavigation⟩ := navigation_iff SmallDir.os_mem_world SmallDir.os_mem_world
    SmallDir.os_mem_world SmallDir.boot_fits ht (by decide) hs
  obtain ⟨s', hs', hshows⟩ := (hnavigation SmallDir.ha).mpr (hcwd.symm ▸ hwalk)
  exact ⟨s, s', hs, hcwd, hs', hshows⟩

end EltexHomeworks.FileManager
