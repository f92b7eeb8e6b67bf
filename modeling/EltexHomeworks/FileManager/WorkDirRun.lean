import EltexHomeworks.FileManager.WorkDir

namespace EltexHomeworks.FileManager

open EltexHomeworks.Lib

/-!
# File manager — the working directory over whole runs

Opening a directory and start-up keep both panels tracked; with the cursor keys and `TAB` this
gives `workDir_agrees`.  `workDir_disagrees` is the run that does not fit: the right panel enters
`/h/a`, and after two `TAB`s the process is in `/w` while the panel still lists `/h/a`.
-/

variable {Dir : Type} {t : FileTree Dir}

/-! ### Opening a directory -/

namespace State.Tracked

variable {s s' : State Dir}

/-- `ENTER` on an entry that cannot be opened only changes where `work_dir` points. -/
theorem notOpened (h : s.Tracked t) {ref : StrRef} {name : Str}
    (href : selectedName s.proc.mem (s.win s.side) = .ok ref)
    (hname : s.proc.mem.read ref = .ok name) (hnone : t.opendir s.proc.cwd name = none) :
    (s.update s.side { s.win s.side with workDir := ref } s.proc).Tracked t := by
  obtain ⟨id, e, hid, he, rfl, hread⟩ := selectedName_eq_ok href
  rw [hname] at hread
  cases hread
  refine update rfl ?_ (fun i _ => h.panels i) (fun i hi => ⟨?_, fun id' hid' => ?_⟩) h.cwd
  · obtain ⟨id', l, hp⟩ := h.panels s.side
    have hidd : id' = id := Option.some.inj (hp.nameList.symm.trans hid)
    subst hidd
    refine ⟨id', l, hp.nameList, hp.listed, hp.names, ⟨e.dName, hname, ?_⟩, ?_, hp.header⟩
    · -- the name is not absolute, and cannot be opened where it was read
      rintro c (habs | ⟨ho, id'', k, l', hk, hl', rfl⟩)
      · exact absurd habs (hp.not_absolute he)
      · cases hk
        rw [hp.listed] at hl'
        cases hl'
        rw [h.dir_eq hp] at ho
        exact absurd hnone ho
    · intro id'' k hk
      cases hk
      exact Memory.lt_of_list hp.listed
  · exact h.apart _ i (Ne.symm hi)
  · refine ⟨(h.apart i _ hi id' hid').1, fun k hk => ?_⟩
    cases hk
    exact (h.apart i _ hi id hid').1 hid

/-- `ENTER` on an entry that is opened. -/
theorem opened (h : s.Tracked t) {os : Os Dir} (hos : os ∈ t.world) {ref : StrRef} {w w' : Panel}
    {p : Process Dir} {list : Listing Dir} {path : Str}
    (href : selectedName s.proc.mem (s.win s.side) = .ok ref)
    (ht : Tracks t { s.win s.side with workDir := ref } w s.proc p list path)
    (hw : renderingListDir os p w = .ok w') : (s.update s.side w' p).Tracked t := by
  obtain ⟨id, e, hid, _, rfl, _⟩ := selectedName_eq_ok href
  obtain ⟨id', l, hp⟩ := h.panels s.side
  have hidd : id' = id := Option.some.inj (hp.nameList.symm.trans hid)
  subst hidd
  -- the panel that was opened lists an array of its own
  have hnew := ht.panel hos hw
    (by intro id k hk; cases hk; exact ⟨l, hp.listed, h.dir_eq hp⟩)
  have hlen : s.proc.mem.lists.length ≤ p.mem.lists.length := by rw [ht.lists]; omega
  obtain ⟨d, hw', _⟩ := renderingListDir_frame hw
  have hwd : w'.workDir = .dName id' (s.win s.side).selectedObj.toNat := by
    rw [hw']; exact ht.workDir
  have hactive : w'.active = (s.win s.side).active := by rw [hw']; exact ht.active
  refine update hactive ⟨_, _, hnew⟩ (fun i hi => ?_) (fun i hi => ?_) ?_
  · -- the copy over `work_dir` is not in the array the other panel lists
    obtain ⟨idi, li, hpi⟩ := h.panels i
    have hap := h.apart s.side i (Ne.symm hi) id' hid
    refine ⟨idi, li, hpi.other ht.sameBut hlen ?_ (Ne.symm (hap.2 _)) ?_⟩
    · intro k hk
      cases hk
      exact hap.1 hpi.nameList
    · intro id'' k k' hk
      cases hk
      exact hap.2 k'
  · -- two panels: each must not point into what the other one writes over
    obtain ⟨idi, li, hpi⟩ := h.panels i
    refine ⟨hpi.apart_of_new hnew.nameList, hpi.apart_of_old hnew.nameList fun k hk => ?_⟩
    rw [hwd] at hk
    cases hk
    exact (h.apart s.side i (Ne.symm hi) _ hid).1 hpi.nameList
  · rw [hnew.nameList]
    intro l' hl'
    rw [hnew.listed] at hl'
    cases hl'
    exact ht.dir

/-- **Every key that fits keeps the panels tracked.** -/
theorem handleKey (h : s.Tracked t) {os : Os Dir} (hos : os ∈ t.world) {k : Key}
    (hfit : KeyFits t s k) (hk : handleKey os s k = .ok s') : s'.Tracked t := by
  have hcwd : ∀ c, os.getcwd c = t.getcwd c := by
    obtain ⟨malloc, fork, rfl⟩ := hos
    exact fun _ => rfl
  cases k with
  -- the cursor moves in one panel, and the process stays where it is
  | KEY_UP =>
    obtain ⟨w, hw, rfl⟩ := moveCursor_cases hk
    obtain ⟨hs, hd⟩ := move_frame (Or.inl rfl) hw
    exact h.redrawn hs rfl rfl (by rw [← hcwd]; exact hd)
  | KEY_DOWN =>
    obtain ⟨w, hw, rfl⟩ := moveCursor_cases hk
    obtain ⟨hs, hd⟩ := move_frame (Or.inr rfl) hw
    exact h.redrawn hs rfl rfl (by rw [← hcwd]; exact hd)
  | TAB =>
    obtain ⟨path, hr, rfl⟩ := tab_cases hk
    exact h.switched hos hr (hfit path hr)
  | ENTER =>
    -- the entry is opened, or it is an executable of the left panel
    rcases enter_cases hk with ⟨ref, ret, w, p, href, hlist, hcase⟩ | ⟨name, w, hw, rfl⟩
    · obtain ⟨id, e, _, he, _, hread⟩ := selectedName_eq_ok href
      rcases listDir_tracks hos hlist hread (hfit e he) with
        ⟨hret, rfl, rfl, hnone, _⟩ | ⟨list, path, hret, ht⟩
      · -- `scandir` failed: the name stays in `work_dir` and must not be read as a path
        rcases hcase with ⟨_, rfl⟩ | ⟨_, _, hne, _⟩
        · exact h.notOpened href hread hnone
        · exact absurd hret hne
      · rcases hcase with ⟨hret', _⟩ | ⟨w', hw', _, rfl⟩
        · exact absurd hret' hret
        · have ht' : Tracks t { s.win s.side with workDir := ref } { w with selectedObj := 1 }
              s.proc p list path :=
            ⟨ht.1, ht.2, ht.3, ht.4, ht.5, ht.6, ht.7, ht.8, ht.9, ht.10, ht.11, ht.12⟩
          exact h.opened hos href ht' hw'
    · -- `fork` and `execl` leave the memory and the directory of the process
      obtain ⟨d, rfl, hd⟩ := renderingListDir_frame hw
      have hproc : (tryExec os name s.proc).2.mem = s.proc.mem ∧
          (tryExec os name s.proc).2.cwd = s.proc.cwd := by
        unfold tryExec
        split <;> exact ⟨rfl, rfl⟩
      refine h.redrawn ⟨rfl, rfl, rfl, rfl, rfl, rfl⟩ hproc.1 hproc.2 (Or.inr ⟨d, rfl, ?_⟩)
      rw [hd, hcwd, hproc.2]

end State.Tracked

/-! ### Start-up -/

/-- `ListDir` on a panel without a listing does not come back with `-1`. -/
theorem listDir_tracks_of_none {os : Os Dir} (hos : os ∈ t.world) {win w : Panel}
    {p p' : Process Dir} {ret : Int} {name : Str} (h : listDir os win p = .ok (ret, w, p'))
    (hname : p.mem.read win.workDir = .ok name) (ho : t.Opens p.cwd name)
    (hnone : win.nameList = none) : ∃ list path, Tracks t win w p p' list path := by
  rcases listDir_tracks hos h hname ho with ⟨_, _, _, _, l, hl⟩ | ⟨list, path, _, ht⟩
  · rw [hnone, Memory.list_none] at hl
    cases hl
  · exact ⟨list, path, ht⟩

/-- An absolute path can be opened from everywhere or from nowhere. -/
theorem FileTree.Opens.of_absolute {c c' : Dir} {path : Str} (h : t.Opens c path)
    (habs : Absolute path) : t.Opens c' path := by
  have hdot : path ≠ dotDot := by rintro rfl; exact absurd habs (by decide)
  rw [FileTree.Opens, if_neg hdot] at h ⊢
  rw [t.opendir_absolute c' c path habs, t.chdir_absolute c' c path habs]
  exact h

/-- Start-up leaves the panels tracked, with the process in the directory of the left one. -/
theorem start_tracked {osR osL : Os Dir} (hR : osR ∈ t.world) (hL : osL ∈ t.world) {b : Boot Dir}
    (hb : BootFits t b) {s : State Dir} (h : start osR osL b = .ok s) : s.Tracked t := by
  obtain ⟨hhome, path, hpath, hopens⟩ := hb
  have habs : Absolute path := t.getcwd_absolute _ _ hpath
  have hbuf : osR.cwdString b.cwd = path := by
    obtain ⟨malloc, fork, rfl⟩ := hR
    unfold Os.cwdString
    show (t.getcwd b.cwd).getD malloc = path
    rw [hpath, Option.getD_some]
  obtain ⟨_, right, pR, dR, _, left, pL, dL, hlistR, hright, hlistL, hleft, rfl⟩ := start_cases h
  -- the right panel, from `HOME`
  obtain ⟨home, _, _, hr, _, _, _⟩ := listDir_cases hlistR
  have hhome' : b.home = some home := orUndefined_eq_ok.mp hr
  obtain ⟨listR, pathR, htR⟩ := listDir_tracks_of_none hR hlistR hr (hhome home hhome') rfl
  -- the left panel, from the directory the program was started in
  have hreadL : pR.mem.read .buffCurrDir = .ok path :=
    htR.sameBut.read .buffCurrDir path (by simp [Boot.right]) (by intro _ _ _ hk; cases hk)
      (congrArg Except.ok hbuf)
  obtain ⟨listL, pathL, htL⟩ := listDir_tracks_of_none hL hlistL hreadL
    (hopens.of_absolute habs) rfl
  have hnewR := htR.panel hR hright (by intro _ _ hk; cases hk)
  have hnewL := htL.panel hL hleft (by intro _ _ hk; cases hk)
  have hlen : pR.mem.lists.length ≤ pL.mem.lists.length := by rw [htL.lists]; omega
  have hwdR : right.workDir = .home := htR.workDir
  have hwdL : left.workDir = .buffCurrDir := htL.workDir
  have hnlL : left.nameList = some pR.mem.lists.length := htL.nameList
  refine ⟨fun i => ?_, fun i j hij => ?_, ?_⟩
  · cases i with
    | left => exact ⟨_, _, hnewL⟩
    | right =>
      refine ⟨_, _, hnewR.other htL.sameBut hlen (by intro _ hk; cases hk) ?_
        (by intro _ _ _ hk; cases hk)⟩
      show StrRef.buffCurrDir ≠ right.workDir
      rw [hwdR]
      simp
  · cases i with
    | left =>
      cases j with
      | left => exact absurd rfl hij
      | right => exact hnewR.apart_of_new hnlL
    | right =>
      cases j with
      | right => exact absurd rfl hij
      | left =>
        refine hnewR.apart_of_old hnlL fun k hk => ?_
        have hk' : left.workDir = .dName 0 k := hk
        rw [hwdL] at hk'
        cases hk'
  · have hside : State.side ⟨{ left with drawn := some dL }, { right with drawn := some dR }, pL⟩ =
        .left := if_pos htL.active
    rw [hside]
    intro l hl
    have hl' : pL.mem.list left.nameList = .ok l := hl
    rw [hnlL, htL.listed] at hl'
    cases hl'
    exact htL.dir

/-! ### Whole runs -/

/-- **The working directory agrees in runs that fit.**  In every run whose start-up and keys fit,
    the process is in the directory the active panel lists, after every key. -/
theorem workDir_agrees (t : FileTree Dir) (b : Boot Dir) (hb : BootFits t b) {s : State Dir}
    (hs : ((fileManager b t.world).restrict fun s l => KeyFits t s l.1).Reachable s) :
    WorkDirAgrees t s := by
  have hinv : ((fileManager b t.world).restrict fun s l => KeyFits t s l.1).Invariant
      fun s => s.Tracked t :=
    { base := by
        rintro s ⟨osR, hR, osL, hL, h⟩
        exact start_tracked hR hL hb h
      keep := by
        rintro s ⟨k, os⟩ s' hs ⟨hfit, hos, hk⟩
        exact hs.handleKey hos hfit hk }
  exact (hinv.of_reachable hs).agrees

/-! ### A tree with two directories below the root -/

/-- The directories `/`, `/w`, `/h` and `/h/a`. -/
inductive SmallDir
  | root
  | w
  | h
  | ha
deriving DecidableEq, Repr

namespace SmallDir

/-- The directory a path leads to, from `c`: the absolute paths, `.` and `..`, and the names of the
    directories below. -/
def walk (c : SmallDir) (path : Str) : Option SmallDir :=
  if path = [47] then some root
  else if path = [47, 119] then some w
  else if path = [47, 104] then some h
  else if path = [47, 104, 47, 97] then some ha
  else if path = [46] then some c
  else if path = dotDot then some (if c = ha then h else root)
  else if c = root ∧ path = [119] then some w
  else if c = root ∧ path = [104] then some h
  else if c = h ∧ path = [97] then some ha
  else none

def path : SmallDir → Str
  | root => [47]
  | w => [47, 119]
  | h => [47, 104]
  | ha => [47, 104, 47, 97]

/-- The names in a directory, besides `.` and `..`. -/
def names : SmallDir → List Str
  | root => [[104], [119]]
  | w => []
  | h => [[97]]
  | ha => []

theorem walk_absolute (c c' : SmallDir) (path : Str) (hp : Absolute path) :
    walk c path = walk c' path := by
  have hne : ∀ q : Str, q.head? ≠ some 47 → path ≠ q := by
    rintro q hq rfl
    exact hq hp
  have h1 := hne [46] (by decide)
  have h2 := hne dotDot (by decide)
  have h3 := hne [119] (by decide)
  have h4 := hne [104] (by decide)
  have h5 := hne [97] (by decide)
  simp [walk, h1, h2, h3, h4, h5]

/-- The tree, in which every directory can be read and entered. -/
def tree : FileTree SmallDir where
  chdir := walk
  opendir := walk
  getcwd d := some d.path
  readdir d := ⟨([46] :: dotDot :: d.names).map fun n => ⟨n, DT_DIR⟩, by cases d <;> decide⟩
  lstat _ _ := some 0o040755
  same_dir c path d d' h h' := Option.some.inj (h'.symm.trans h)
  chdir_absolute := walk_absolute
  opendir_absolute := walk_absolute
  getcwd_absolute d path h := by cases d <;> cases h <;> decide
  slash_not_mem d := by cases d <;> decide

/-- The program is started in `/w`, with `HOME=/h`. -/
def boot : Boot SmallDir := .terminal w h.path

theorem boot_fits : BootFits tree boot :=
  ⟨by rintro _ ⟨⟩; exact fun _ => by decide, w.path, by decide, fun _ => by decide⟩

/-- The system calls in the tree. -/
def os : Os SmallDir := tree.os [] true

theorem os_mem_world : os ∈ tree.world := ⟨[], true, rfl⟩

end SmallDir

/-- From `/w`, with the right panel in `/h`: the right panel enters `/h/a`, and back in the left
    panel and in the right one again the process stays in `/w`. -/
theorem workDir_disagrees :
    ¬ ∀ (Dir : Type) (t : FileTree Dir) (b : Boot Dir) (s : State Dir),
      (fileManager b t.world).Reachable s → WorkDirAgrees t s := by
  intro h
  have hrun : ∃ s₀ s, start SmallDir.os SmallDir.os SmallDir.boot = .ok s₀ ∧
      handleKeys SmallDir.os [.TAB, .KEY_DOWN, .ENTER, .TAB, .TAB] s₀ = .ok s ∧
      (s.proc.mem.list (s.win s.side).nameList).map (·.dir) = .ok SmallDir.ha ∧
      s.proc.cwd = SmallDir.w := ⟨_, _, rfl, rfl, rfl, rfl⟩
  obtain ⟨s₀, s, hstart, hkeys, hdir, hcwd⟩ := hrun
  have hs : (fileManager SmallDir.boot SmallDir.tree.world).Reachable s :=
    Reachable.handleKeys SmallDir.os_mem_world
      (.init ⟨_, SmallDir.os_mem_world, _, SmallDir.os_mem_world, hstart⟩) hkeys
  obtain ⟨l, hl, hlcwd⟩ := (h SmallDir SmallDir.tree SmallDir.boot s hs).listed
  rw [hl, Except.map, hlcwd, hcwd] at hdir
  cases hdir

/-- With both panels where they were started, `TAB` fits. -/
theorem workDir_agrees_after_tab :
    ∃ s, s.proc.cwd = SmallDir.h ∧ WorkDirAgrees SmallDir.tree s := by
  have hrun : ∃ s₀ s, start SmallDir.os SmallDir.os SmallDir.boot = .ok s₀ ∧
      handleKey SmallDir.os s₀ .TAB = .ok s ∧
      s₀.proc.mem.read (s₀.win s₀.side.other).workDir = .ok SmallDir.h.path ∧
      s.proc.cwd = SmallDir.h := ⟨_, _, rfl, rfl, rfl, rfl⟩
  obtain ⟨s₀, s, hstart, hkey, hread, hcwd⟩ := hrun
  refine ⟨s, hcwd, workDir_agrees SmallDir.tree SmallDir.boot SmallDir.boot_fits ?_⟩
  refine .step (l := (.TAB, SmallDir.os))
    (.init ⟨_, SmallDir.os_mem_world, _, SmallDir.os_mem_world, hstart⟩)
    ⟨fun path hpath => ?_, SmallDir.os_mem_world, hkey⟩
  rw [hread] at hpath
  cases hpath
  exact Or.inl (by decide)

end EltexHomeworks.FileManager
