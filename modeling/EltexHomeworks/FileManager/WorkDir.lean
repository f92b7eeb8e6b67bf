import EltexHomeworks.FileManager.FileTree

namespace EltexHomeworks.FileManager

open EltexHomeworks.Lib

/-!
# File manager — the working directory and the active panel

The process has one working directory for two panels.  `TAB` returns to the directory of the
other panel by its `work_dir`, which is a bare name after `ENTER` on anything but `..`; from the
directory of the first panel that name leads somewhere else, or nowhere, unless that directory is
the one the name was read in.  `KeyFits` says when a
key is handled without such an accident, and `workDir_agrees` that in runs of such keys the
process always is in the directory the active panel lists.
-/

variable {Dir : Type}

/-- The process is in the directory whose entries the active panel lists, and the header of the
    panel is the path of that directory. -/
structure WorkDirAgrees (t : FileTree Dir) (s : State Dir) : Prop where
  listed : ∃ l, s.proc.mem.list (s.win s.side).nameList = .ok l ∧ l.dir = s.proc.cwd
  header : ∃ d, (s.win s.side).drawn = some d ∧ d.header = t.getcwd s.proc.cwd

/-! ### The keys that fit -/

/-- What start-up needs of the tree: both directories can be opened as `FileTree.Opens` says, and
    the path of the first is known. -/
def BootFits (t : FileTree Dir) (b : Boot Dir) : Prop :=
  (∀ home, b.home = some home → t.Opens b.cwd home) ∧
    ∃ path, t.getcwd b.cwd = some path ∧ t.Opens b.cwd path

/-- The `work_dir` of a panel, `path`, is of use in the directory `cwd`: it is absolute, or it is a
    name read from the listing of `cwd` that can be opened there. -/
def Panel.Usable (t : FileTree Dir) (m : Memory Dir) (w : Panel) (path : Str) (cwd : Dir) : Prop :=
  Absolute path ∨ t.opendir cwd path ≠ none ∧
    ∃ id k l, w.workDir = .dName id k ∧ m.list (some id) = .ok l ∧ l.dir = cwd

/-- `TAB` fits when the `work_dir` of the panel it activates is of use in the current directory,
    `ENTER` when the selected entry can be opened as `FileTree.Opens` says. -/
def KeyFits (t : FileTree Dir) (s : State Dir) : Key → Prop
  | .KEY_UP => True
  | .KEY_DOWN => True
  | .TAB => ∀ path, s.proc.mem.read (s.win s.side.other).workDir = .ok path →
      (s.win s.side.other).Usable t s.proc.mem path s.proc.cwd
  | .ENTER => ∀ e, s.proc.mem.entry (s.win s.side).nameList
      (s.win s.side).selectedObj.toNat = .ok e → t.Opens s.proc.cwd e.dName

/-! ### The invariant -/

/-- A panel that lists the array `id` of memory, `l`: its `work_dir` leads to its directory from
    where it is of use, and the header is its path. -/
structure PanelTracked (t : FileTree Dir) (m : Memory Dir) (w : Panel) (id : Nat)
    (l : Listing Dir) : Prop where
  nameList : w.nameList = some id
  listed : m.list (some id) = .ok l
  names : ∀ e ∈ l.entries, 47 ∉ e.dName
  workDir : ∃ path, m.read w.workDir = .ok path ∧
    ∀ c, w.Usable t m path c → t.chdir c path = some l.dir
  fresh : ∀ id' k, w.workDir = .dName id' k → id' < m.lists.length
  header : ∃ d, w.drawn = some d ∧ d.header = t.getcwd l.dir

/-- Neither the listing nor the `work_dir` of `w'` is in the array `w` lists. -/
def Panel.Apart (w w' : Panel) : Prop :=
  ∀ id, w.nameList = some id → w'.nameList ≠ some id ∧ ∀ k, w'.workDir ≠ .dName id k

/-- Both panels are tracked, apart from each other, and the process is in the directory of the
    active one. -/
structure State.Tracked (t : FileTree Dir) (s : State Dir) : Prop where
  panels : ∀ i, ∃ id l, PanelTracked t s.proc.mem (s.win i) id l
  apart : ∀ i j, i ≠ j → (s.win i).Apart (s.win j)
  cwd : ∀ l, s.proc.mem.list (s.win s.side).nameList = .ok l → l.dir = s.proc.cwd

namespace PanelTracked

variable {t : FileTree Dir} {m m' : Memory Dir} {w w' : Panel} {id : Nat} {l : Listing Dir}

/-- A move of the cursor, in the directory of the panel. -/
theorem moved {cwd : Dir} (h : PanelTracked t m w id l) (hs : w.SameListing w')
    (hd : w'.drawn = w.drawn ∨ ∃ d, w'.drawn = some d ∧ d.header = t.getcwd cwd)
    (hcwd : l.dir = cwd) : PanelTracked t m w' id l where
  nameList := hs.nameList.trans h.nameList
  listed := h.listed
  names := h.names
  workDir := by
    obtain ⟨path, hr, hback⟩ := h.workDir
    refine ⟨path, by rw [hs.workDir]; exact hr, fun c huse => hback c ?_⟩
    rw [Panel.Usable, hs.workDir] at huse
    exact huse
  fresh := by rw [hs.workDir]; exact h.fresh
  header := by
    rcases hd with hd | ⟨d, hd, hh⟩
    · rw [hd]; exact h.header
    · exact ⟨d, hd, by rw [hh, hcwd]⟩

/-- The panel whose memory only changed where it does not look. -/
theorem other {ref : StrRef} (h : PanelTracked t m w id l) (hm : m.SameBut ref m')
    (hlen : m.lists.length ≤ m'.lists.length) (hid : ∀ k, ref ≠ .dName id k)
    (hne : ref ≠ w.workDir) (hapart : ∀ id' i j, ref = .dName id' i → w.workDir ≠ .dName id' j) :
    PanelTracked t m' w id l where
  nameList := h.nameList
  listed := hm.list id l hid h.listed
  names := h.names
  workDir := by
    obtain ⟨path, hr, hback⟩ := h.workDir
    refine ⟨path, hm.read _ _ hne hapart hr, fun c huse => hback c ?_⟩
    rcases huse with habs | ⟨ho, id', k, l', hw, hl', hdir⟩
    · exact Or.inl habs
    · -- the array the name is in is still the same
      rw [hw, Memory.read_dName_eq_ok] at hr
      obtain ⟨l'', _, hl'', _⟩ := hr
      have hsame := hm.list id' l'' (fun i hi => hapart id' i k hi hw)
        (Memory.list_some_eq_ok.mpr hl'')
      rw [hl'] at hsame
      cases hsame
      exact Or.inr ⟨ho, id', k, l', hw, Memory.list_some_eq_ok.mpr hl'', hdir⟩
  fresh id' k hk := lt_of_lt_of_le (h.fresh id' k hk) hlen
  header := h.header

/-- The names of a tracked panel are no absolute paths. -/
theorem not_absolute (h : PanelTracked t m w id l) {e : Dirent} {i : Nat}
    (he : m.entry w.nameList i = .ok e) : ¬ Absolute e.dName := by
  rw [h.nameList, Memory.entry, h.listed] at he
  have hmem : e ∈ l.entries := List.mem_of_getElem? (orUndefined_eq_ok.mp he)
  intro habs
  exact h.names e hmem (List.mem_of_mem_head? habs)

/-- A panel that lists a new array is apart from a tracked one. -/
theorem apart_of_new (h : PanelTracked t m w id l) (hw' : w'.nameList = some m.lists.length) :
    w'.Apart w := by
  intro id' hid'
  have hnew : id' = m.lists.length := Option.some.inj (hid'.symm.trans hw')
  subst hnew
  refine ⟨fun hlist => ?_, fun k hk => ?_⟩
  · have hid : id = m.lists.length := Option.some.inj (h.nameList.symm.trans hlist)
    exact absurd (Memory.lt_of_list h.listed) (by omega)
  · exact absurd (h.fresh _ k hk) (Nat.lt_irrefl _)

/-- A tracked panel is apart from one that lists a new array, if the name that one was opened by is
    not in the array of the first. -/
theorem apart_of_old (h : PanelTracked t m w id l) (hw' : w'.nameList = some m.lists.length)
    (hname : ∀ k, w'.workDir ≠ .dName id k) : w.Apart w' := by
  intro id' hid'
  have hold : id' = id := Option.some.inj (hid'.symm.trans h.nameList)
  subst hold
  refine ⟨fun hlist => ?_, hname⟩
  have hid : m.lists.length = id' := Option.some.inj (hw'.symm.trans hlist)
  exact absurd (Memory.lt_of_list h.listed) (by omega)

end PanelTracked

/-- The panel `ListDir` opened, once it is drawn. -/
theorem Tracks.panel {t : FileTree Dir} {os : Os Dir} (hos : os ∈ t.world) {win w w' : Panel}
    {p p' : Process Dir} {list : Listing Dir} {path : Str} (h : Tracks t win w p p' list path)
    (hd : renderingListDir os p' w = .ok w')
    (hfrom : ∀ id k, win.workDir = .dName id k →
      ∃ l, p.mem.list (some id) = .ok l ∧ l.dir = p.cwd) :
    PanelTracked t p'.mem w' p.mem.lists.length list := by
  obtain ⟨malloc, fork, rfl⟩ := hos
  obtain ⟨d, rfl, hh⟩ := renderingListDir_frame hd
  refine ⟨h.nameList, h.listed, h.names, ⟨path, ?_, ?_⟩, ?_, ⟨d, rfl, ?_⟩⟩
  · show p'.mem.read w.workDir = _
    rw [h.workDir]
    exact h.read
  · rw [h.dir]
    rintro c (habs | ⟨_, id, k, l', hk, hl', hc⟩)
    · exact h.back habs c
    · -- a name is used from where it was read, which is where it was opened
      obtain ⟨l, hl, hcwd⟩ := hfrom id k (h.workDir ▸ hk)
      obtain ⟨l'', hl'', hdir, _⟩ := h.keeps id l (Memory.list_some_eq_ok.mp hl)
      rw [Memory.list_some_eq_ok, hl''] at hl'
      cases hl'
      rw [← hc, hdir, hcwd]
      exact h.here
  · intro id k hk
    obtain ⟨l, hl, _⟩ := hfrom id k (h.workDir ▸ hk)
    rw [h.lists]
    exact Nat.lt_succ_of_lt (Memory.lt_of_list hl)
  · rw [h.dir]
    exact hh

namespace State.Tracked

variable {t : FileTree Dir} {s : State Dir}

/-- A tracked state agrees. -/
theorem agrees (h : s.Tracked t) : WorkDirAgrees t s := by
  obtain ⟨id, l, hp⟩ := h.panels s.side
  have hl : s.proc.mem.list (s.win s.side).nameList = .ok l := by
    rw [hp.nameList]; exact hp.listed
  have hdir := h.cwd l hl
  exact ⟨⟨l, hl, hdir⟩, hdir ▸ hp.header⟩

/-- The directory of the active panel is the working directory. -/
theorem dir_eq (h : s.Tracked t) {id : Nat} {l : Listing Dir}
    (hp : PanelTracked t s.proc.mem (s.win s.side) id l) : l.dir = s.proc.cwd :=
  h.cwd l (by rw [hp.nameList]; exact hp.listed)

/-- **Replacing the active panel.**  The new one and the other one must be tracked and apart, and
    the process in the directory of the new one. -/
theorem update {w : Panel} {p : Process Dir} (hactive : w.active = (s.win s.side).active)
    (hpanel : ∃ id l, PanelTracked t p.mem w id l)
    (hother : ∀ i, i ≠ s.side → ∃ id l, PanelTracked t p.mem (s.win i) id l)
    (hapart : ∀ i, i ≠ s.side → w.Apart (s.win i) ∧ (s.win i).Apart w)
    (hcwd : ∀ l, p.mem.list w.nameList = .ok l → l.dir = p.cwd) :
    (s.update s.side w p).Tracked t := by
  refine ⟨fun i => ?_, fun i j hij => ?_, ?_⟩
  · rw [State.proc_update]
    by_cases hi : i = s.side
    · subst hi
      rw [State.win_update_self]
      exact hpanel
    · rw [State.win_update_of_ne _ _ _ _ _ hi]
      exact hother i hi
  · by_cases hi : i = s.side
    · subst hi
      rw [State.win_update_self, State.win_update_of_ne _ _ _ _ _ (Ne.symm hij)]
      exact (hapart j (Ne.symm hij)).1
    · -- of the two sides, the other one is the active one
      have hj : j = s.side := by
        cases hside : s.side <;> cases i <;> cases j <;> simp_all
      subst hj
      rw [State.win_update_self, State.win_update_of_ne _ _ _ _ _ hi]
      exact (hapart i hi).2
  · rw [s.side_update _ w p hactive, State.win_update_self, State.proc_update]
    exact hcwd

/-- A cursor key, or the run of a program: the active panel moves or is drawn anew. -/
theorem redrawn (h : s.Tracked t) {w : Panel} {p : Process Dir}
    (hs : (s.win s.side).SameListing w) (hmem : p.mem = s.proc.mem) (hcwd : p.cwd = s.proc.cwd)
    (hd : w.drawn = (s.win s.side).drawn ∨
      ∃ d, w.drawn = some d ∧ d.header = t.getcwd s.proc.cwd) :
    (s.update s.side w p).Tracked t := by
  refine update hs.active ?_ (fun i _ => ?_) (fun i hi => ⟨fun id hid => ?_, fun id hid => ?_⟩) ?_
  · obtain ⟨id, l, hp⟩ := h.panels s.side
    rw [hmem]
    exact ⟨id, l, hp.moved hs hd (h.dir_eq hp)⟩
  · rw [hmem]
    exact h.panels i
  · exact h.apart _ i (Ne.symm hi) id (hs.nameList ▸ hid)
  · rw [hs.nameList, hs.workDir]
    exact h.apart i _ hi id hid
  · rw [hmem, hcwd, hs.nameList]
    exact h.cwd

/-- `TAB` to a panel whose `work_dir` is of use. -/
theorem switched (h : s.Tracked t) {os : Os Dir} (hos : os ∈ t.world) {path : Str}
    (hr : s.proc.mem.read (s.win s.side.other).workDir = .ok path)
    (huse : (s.win s.side.other).Usable t s.proc.mem path s.proc.cwd) :
    (s.switched (os.enter s.proc.cwd path)).Tracked t := by
  obtain ⟨malloc, fork, rfl⟩ := hos
  -- `work_dir` leads back to what the other panel lists
  obtain ⟨id, l, hp⟩ := h.panels s.side.other
  obtain ⟨path', hr', hback⟩ := hp.workDir
  rw [hr] at hr'
  cases hr'
  have henter : (t.os malloc fork).enter s.proc.cwd path = l.dir := by
    unfold Os.enter
    show (t.chdir s.proc.cwd path).getD s.proc.cwd = l.dir
    rw [hback s.proc.cwd huse, Option.getD_some]
  -- only `active` and the working directory change
  have hwin : ∀ k cwd, ∃ a, (s.switched cwd).win k = { s.win k with active := a } := by
    intro k cwd
    cases k with
    | left => exact ⟨!s.leftWin.active, rfl⟩
    | right => exact ⟨s.rightWin.active, rfl⟩
  refine ⟨fun i => ?_, fun i j hij => ?_, ?_⟩
  · obtain ⟨id', l', hp'⟩ := h.panels i
    obtain ⟨a, ha⟩ := hwin i ((t.os malloc fork).enter s.proc.cwd path)
    rw [ha]
    exact ⟨id', l', hp'.nameList, hp'.listed, hp'.names, hp'.workDir, hp'.fresh, hp'.header⟩
  · obtain ⟨a, ha⟩ := hwin i ((t.os malloc fork).enter s.proc.cwd path)
    obtain ⟨a', ha'⟩ := hwin j ((t.os malloc fork).enter s.proc.cwd path)
    rw [ha, ha']
    exact h.apart i j hij
  · obtain ⟨a, ha⟩ := hwin s.side.other ((t.os malloc fork).enter s.proc.cwd path)
    intro l' hl'
    rw [State.side_switched, ha] at hl'
    have hl'' : s.proc.mem.list (s.win s.side.other).nameList = .ok l' := hl'
    rw [hp.nameList, hp.listed] at hl''
    cases hl''
    exact henter.symm

end State.Tracked

end EltexHomeworks.FileManager
