import EltexHomeworks.FileManager.Mirror

namespace EltexHomeworks.FileManager

open EltexHomeworks.Lib

/-!
# File manager — the copy over `work_dir`

For `..` `ListDir` copies the path of the parent directory over the string `work_dir` points at,
which after `ENTER` is the `d_name` of the selected entry.  `CopySafe` says that the path fits
there and that the names in the listings on the screen stay; `copySafe_iff` says for which keys
and trees that is so.  Behind it is that the two panels never list the same array
(`State.ListsApart`).
-/

variable {Dir : Type}

/-- `PATH_MAX` of `linux/limits.h`. -/
def PATH_MAX : Nat := 4096

/-- The bytes behind a `char *work_dir`, its NUL included: `room` is what `scandir` allocated for
    each name, and `home` is the string `getenv` returned. -/
def capacity (home : Option Str) (room : Nat → Nat → Nat) : StrRef → Nat
  | .buffCurrDir => PATH_MAX
  | .home => (home.getD []).length + 1
  | .dName id i => room id i

/-- If `ListDir` copies a path over `work_dir`, the path fits. -/
def CopyFits (cap : StrRef → Nat) (os : Os Dir) (win : Panel) (p : Process Dir) : Prop :=
  p.mem.read win.workDir = .ok dotDot →
    (os.cwdString (os.enter p.cwd dotDot)).length + 1 ≤ cap win.workDir

/-- The names in the array that `w` lists are in `m'` as they were in `m`. -/
def Panel.NamesKept (w : Panel) (m m' : Memory Dir) : Prop :=
  ∀ id l, w.nameList = some id → m.list (some id) = .ok l →
    ∃ l', m'.list (some id) = .ok l' ∧ l'.names = l.names

/-- The key `k` makes the handler call `ListDir` for the panel `win`. -/
def State.CallsListDir (s : State Dir) (k : Key) (win : Panel) : Prop :=
  k = .ENTER ∧ (s.side = .left → ¬ s.SelectsExec) ∧
    ∃ ref, selectedName s.proc.mem (s.win s.side) = .ok ref ∧
      win = { s.win s.side with workDir := ref }

/-- A key copies no path that does not fit, and changes no name a panel still lists after it. -/
def CopySafe (cap : StrRef → Nat) (s : State Dir) (l : Key × Os Dir) : Prop :=
  ∀ win, s.CallsListDir l.1 win → CopyFits cap l.2 win s.proc ∧
    ∀ s', handleKey l.2 s l.1 = .ok s' → ∀ i, (s'.win i).NamesKept s.proc.mem s'.proc.mem

/-- If the key is `ENTER` on `..`, the path of the parent directory fits into the room of that
    name, and the parent directory can be opened by it (or its path is `..` again). -/
def ClimbFits (room : Nat → Nat → Nat) (s : State Dir) (l : Key × Os Dir) : Prop :=
  l.1 = .ENTER → (s.side = .left → ¬ s.SelectsExec) → ∀ id e,
    (s.win s.side).nameList = some id →
    s.proc.mem.entry (some id) (s.win s.side).selectedObj.toNat = .ok e → e.dName = dotDot →
    (l.2.lookup s.proc.cwd dotDot).2.length + 1 ≤ room id (s.win s.side).selectedObj.toNat ∧
      ((l.2.lookup s.proc.cwd dotDot).2 = dotDot ∨
        l.2.opendir (l.2.lookup s.proc.cwd dotDot).1 (l.2.lookup s.proc.cwd dotDot).2 ≠ none)

/-! ### The panels list different arrays -/

/-- The panels list different arrays, both in memory. -/
structure State.ListsApart (s : State Dir) : Prop where
  lt : ∀ i id, (s.win i).nameList = some id → id < s.proc.mem.lists.length
  ne : ∀ i j, i ≠ j → ∀ id, (s.win i).nameList = some id → (s.win j).nameList ≠ some id

namespace State.ListsApart

variable {s s' : State Dir}

/-- A panel that keeps its array, or gets a new one. -/
theorem update (h : s.ListsApart) {i : Side} {w : Panel} {p : Process Dir}
    (hlen : s.proc.mem.lists.length ≤ p.mem.lists.length)
    (hw : w.nameList = (s.win i).nameList ∨
      ∃ id, w.nameList = some id ∧ s.proc.mem.lists.length ≤ id ∧ id < p.mem.lists.length) :
    (s.update i w p).ListsApart := by
  -- the array of the panel is in memory, as the old one was
  have hlt : ∀ id, w.nameList = some id → id < p.mem.lists.length := by
    intro id hid
    rcases hw with hw | ⟨id', hw, _, hid'⟩
    · rw [hw] at hid
      exact Nat.lt_of_lt_of_le (h.lt i id hid) hlen
    · rw [hw] at hid
      cases hid
      exact hid'
  have hne : ∀ j, j ≠ i → ∀ id, (s.win j).nameList = some id → w.nameList ≠ some id := by
    intro j hj id hid heq
    rcases hw with hw | ⟨id', hw, hid', _⟩
    · rw [hw] at heq
      exact h.ne j i hj id hid heq
    · -- an array of the other panel is an old one
      rw [hw] at heq
      cases heq
      exact absurd (h.lt j id hid) (Nat.not_lt.mpr hid')
  constructor
  · intro j id hid
    rw [State.proc_update]
    by_cases hj : j = i
    · subst hj
      rw [State.win_update_self] at hid
      exact hlt id hid
    · rw [State.win_update_of_ne _ _ _ _ _ hj] at hid
      exact Nat.lt_of_lt_of_le (h.lt j id hid) hlen
  · -- and no panel has the array of another
    intro j k hjk id hid heq
    by_cases hj : j = i
    · subst hj
      rw [State.win_update_self] at hid
      rw [State.win_update_of_ne _ _ _ _ _ (Ne.symm hjk)] at heq
      exact hne k (Ne.symm hjk) id heq hid
    · rw [State.win_update_of_ne _ _ _ _ _ hj] at hid
      by_cases hk : k = i
      · subst hk
        rw [State.win_update_self] at heq
        exact hne j hj id hid heq
      · rw [State.win_update_of_ne _ _ _ _ _ hk] at heq
        exact h.ne j k hjk id hid heq

/-- Every key keeps the arrays apart. -/
theorem handleKey (h : s.ListsApart) {os : Os Dir} {k : Key}
    (hk : handleKey os s k = .ok s') : s'.ListsApart := by
  rcases handleKey_cases hk with ⟨move, w, hmove, hw, rfl⟩ | ⟨path, _, rfl⟩ |
    ⟨ref, ret, w, p, _, hlist, hcase⟩ | ⟨name, w, hw, rfl⟩
  · exact h.update (Nat.le_refl _) (Or.inl (move_frame hmove hw).1.nameList)
  · have hname : ∀ i, ((s.switched (os.enter s.proc.cwd path)).win i).nameList =
        (s.win i).nameList := fun i => by cases i <;> rfl
    exact ⟨fun i id hid => h.lt i id ((hname i).symm.trans hid), fun i j hij id hid heq =>
      h.ne i j hij id ((hname i).symm.trans hid) ((hname j).symm.trans heq)⟩
  · have hupdate : ∀ w' : Panel, w'.nameList = w.nameList → (s.update s.side w' p).ListsApart := by
      intro w' hw'
      rcases listDir_ret hlist with ⟨_, rfl, hlen⟩ | ⟨_, hname, hlen⟩
      · exact h.update (Nat.le_of_eq hlen.symm) (Or.inl hw')
      · exact h.update (by omega) (Or.inr ⟨_, hw'.trans hname, Nat.le_refl _, by omega⟩)
    rcases hcase with ⟨_, rfl⟩ | ⟨w', hw', _, rfl⟩
    · exact hupdate w rfl
    · obtain ⟨d, rfl, _⟩ := renderingListDir_frame hw'
      exact hupdate _ rfl
  · obtain ⟨d, rfl, _⟩ := renderingListDir_frame hw
    exact h.update (by rw [mem_tryExec]) (Or.inl rfl)

end State.ListsApart

/-! ### One key -/

/-- Before `scandir` at most one name has changed. -/
theorem locate_list (os : Os Dir) (win : Panel) (name : Str) {p : Process Dir} {id i id' : Nat}
    {l : Listing Dir} (hw : win.workDir = .dName id i) (h : p.mem.list (some id') = .ok l) :
    (locate os win p name).mem.list (some id') = .ok l ∨
      id' = id ∧ name = dotDot ∧
        (locate os win p name).mem.list (some id') = .ok (l.rename i (os.lookup p.cwd name).2) := by
  unfold locate
  by_cases hdot : name = dotDot
  · rw [if_pos hdot]
    subst hdot
    show (p.mem.strcpy win.workDir _).list (some id') = _ ∨
      _ ∧ _ ∧ (p.mem.strcpy win.workDir _).list (some id') = _
    rw [hw]
    by_cases hid : id' = id
    · subst hid
      refine Or.inr ⟨rfl, rfl, ?_⟩
      rw [lookup_dotDot]
      exact Memory.list_strcpy_self h
    · left
      rw [Memory.list_strcpy_of_ne fun j hj => hid (by cases hj; rfl)]
      exact h
  · rw [if_neg hdot]
    exact Or.inl h

/-- Copying over a name makes a difference unless it was the same. -/
theorem names_rename_eq_iff {m : Memory Dir} {id i : Nat} {e : Dirent} {l : Listing Dir}
    {name : Str} (he : m.entry (some id) i = .ok e) (hl : m.list (some id) = .ok l) :
    (l.rename i name).names = l.names ↔ name = e.dName := by
  rw [Memory.entry, hl] at he
  have hi : l.entries[i]? = some e := orUndefined_eq_ok.mp he
  have hname : l.names[i]? = some e.dName := by
    rw [Listing.names, List.getElem?_map, hi]
    rfl
  obtain ⟨hlt, hget⟩ := List.getElem?_eq_some_iff.mp hname
  rw [Listing.names_rename]
  constructor
  · intro heq
    have hset := congrArg (·[i]?) heq
    simp only [List.getElem?_set_self hlt, hname] at hset
    exact Option.some.inj hset
  · rintro rfl
    rw [← hget]
    exact List.set_getElem_self hlt

/-- The entry `ENTER` looks at. -/
theorem State.CallsListDir.spec {s : State Dir} {k : Key} {win : Panel}
    (h : s.CallsListDir k win) :
    ∃ id e, k = .ENTER ∧ (s.side = .left → ¬ s.SelectsExec) ∧
      (s.win s.side).nameList = some id ∧
      s.proc.mem.entry (some id) (s.win s.side).selectedObj.toNat = .ok e ∧
      win = (s.win s.side).target id ∧ s.proc.mem.read win.workDir = .ok e.dName := by
  obtain ⟨hk, hexec, ref, href, rfl⟩ := h
  obtain ⟨id, e, hid, he, rfl, hread⟩ := selectedName_eq_ok href
  rw [hid] at he
  exact ⟨id, e, hk, hexec, hid, he, rfl, hread⟩

/-- With the arrays apart, a safe copy keeps the names on the screen. -/
theorem names_kept {room : Nat → Nat → Nat} {os : Os Dir} {s s' : State Dir} (h : s.ListsApart)
    (hfits : ClimbFits room s (.ENTER, os)) (hexec : s.side = .left → ¬ s.SelectsExec) {id : Nat}
    {e : Dirent} (hid : (s.win s.side).nameList = some id)
    (he : s.proc.mem.entry (some id) (s.win s.side).selectedObj.toNat = .ok e)
    (hs' : handleKey os s .ENTER = .ok s') (i : Side) :
    (s'.win i).NamesKept s.proc.mem s'.proc.mem := by
  intro id' l hid' hl
  have he' := he
  rw [← hid] at he'
  rw [handleKey_enter hexec] at hs'
  obtain ⟨_, p, hid'', hp, hcases⟩ := openSelected_cases os he'
  rw [hid] at hid''
  cases hid''
  have hlist := locate_list os ((s.win s.side).target id) e.dName rfl hl
  rw [← hp] at hlist
  rcases hcases with ⟨hscan, hopen⟩ | ⟨found, _, ⟨_, hopen⟩ | ⟨list, d, _, hopen⟩⟩
  · -- the parent could not be opened: the name is still on the screen
    rw [hopen] at hs'
    cases hs'
    rw [State.proc_update]
    rcases hlist with hlist | ⟨rfl, hdot, hlist⟩
    · exact ⟨l, hlist, rfl⟩
    · refine ⟨_, hlist, (names_rename_eq_iff he hl).mpr ?_⟩
      obtain ⟨_, hpath | hopened⟩ := hfits rfl hexec _ e hid he hdot
      · rw [hdot, hpath]
      · have hcwd := (locate_spec os ((s.win s.side).target id') rfl he).1
        rw [← hp] at hcwd
        rw [Os.scandir, hcwd, hdot, Option.map_eq_none_iff] at hscan
        exact absurd hscan hopened
  · rw [hopen] at hs'
    cases hs'
  · rw [hopen] at hs'
    cases hs'
    have hlt := Memory.lt_of_list hl
    by_cases hi : i = s.side
    · -- this panel lists a new array
      subst hi
      rw [State.win_update_self] at hid'
      cases hid'
      rw [hp, length_lists_locate] at hlt
      exact absurd hlt (Nat.lt_irrefl _)
    · rw [State.win_update_of_ne _ _ _ _ _ hi] at hid'
      rcases hlist with hlist | ⟨rfl, _, _⟩
      · refine ⟨l, ?_, rfl⟩
        rw [State.proc_update]
        exact (Memory.sameBut_alloc p.mem .home list).list id' l (fun _ => by simp) hlist
      · exact absurd hid' (h.ne s.side i (Ne.symm hi) id' hid)

/-- **One key** is safe exactly when it fits. -/
theorem copySafe_step {home : Option Str} {room : Nat → Nat → Nat} {s : State Dir}
    (h : s.ListsApart) (l : Key × Os Dir) :
    CopySafe (capacity home room) s l ↔ ClimbFits room s l := by
  obtain ⟨k, os⟩ := l
  constructor
  · -- the copy of the path fits, and the names on the screen are kept
    intro hsafe hk hexec id e hid he hdot
    cases (hk : k = .ENTER)
    have hname : selectedName s.proc.mem (s.win s.side) =
        .ok (.dName id (s.win s.side).selectedObj.toNat) := by
      rw [selectedName, hid, he]
      rfl
    have hcalls : s.CallsListDir .ENTER ((s.win s.side).target id) := ⟨rfl, hexec, _, hname, rfl⟩
    obtain ⟨hfits, hnames⟩ := hsafe _ hcalls
    have hread : s.proc.mem.read ((s.win s.side).target id).workDir = .ok dotDot := by
      rw [← hdot]
      exact Memory.read_of_entry he
    rw [lookup_dotDot]
    refine ⟨hfits hread, ?_⟩
    by_contra hnot
    obtain ⟨hpath, hopened⟩ := not_or.mp hnot
    rw [not_ne_iff] at hopened
    -- the name on the screen has become the path
    have he' := he
    rw [← hid] at he'
    obtain ⟨_, p, hid', hp, hcases⟩ := openSelected_cases os he'
    rw [hid] at hid'
    cases hid'
    have hcwd := (locate_spec os ((s.win s.side).target id) rfl he).1
    rw [← hp, hdot, lookup_dotDot] at hcwd
    rw [hdot, lookup_dotDot] at hcases
    rcases hcases with ⟨_, hopen⟩ | ⟨found, hscan, _⟩
    · obtain ⟨l, hl, _⟩ := bind_eq_ok.mp he
      rw [← handleKey_enter hexec] at hopen
      obtain ⟨l', hl', heq⟩ :=
        hnames _ hopen s.side id l (by rw [State.win_update_self]; exact hid) hl
      rw [State.proc_update, hp, locate, if_pos hdot] at hl'
      have hl'' := Memory.list_strcpy_self (i := (s.win s.side).selectedObj.toNat)
        (s := os.cwdString (os.enter s.proc.cwd dotDot)) hl
      cases hl''.symm.trans hl'
      exact hpath (((names_rename_eq_iff he hl).mp heq).trans hdot)
    · -- and if the directory could be opened, it was
      rw [Os.scandir, hcwd, hopened] at hscan
      cases hscan
  · intro hfits win hcalls
    -- the other way the condition is what the call needs
    obtain ⟨id, e, hk, hexec, hid, he, rfl, hread⟩ := hcalls.spec
    cases (hk : k = .ENTER)
    refine ⟨fun hdot => ?_, fun s' hs' i => names_kept h hfits hexec hid he hs' i⟩
    rw [hread] at hdot
    have hpath := (hfits rfl hexec id e hid he (Except.ok.inj hdot)).1
    rw [lookup_dotDot] at hpath
    exact hpath

/-! ### Start-up -/

/-- `getcwd` and a fresh block keep to the `PATH_MAX` bytes they are given. -/
structure Os.Bounded (os : Os Dir) : Prop where
  getcwd : ∀ d path, os.getcwd d = some path → path.length < PATH_MAX
  malloc : os.malloc.length < PATH_MAX

/-- The two listings made at start-up copy no path that does not fit, and the second one changes
    no name of the first. -/
def StartSafe (cap : StrRef → Nat) (osR osL : Os Dir) (b : Boot Dir) : Prop :=
  CopyFits cap osR b.right (b.proc osR) ∧
    ∀ ret right p, listDir osR b.right (b.proc osR) = .ok (ret, right, p) →
      CopyFits cap osL b.left p ∧
        ∀ ret' left p', listDir osL b.left p = .ok (ret', left, p') → right.NamesKept p.mem p'.mem

/-- If `HOME` is `..`, the path of the parent of the start directory is no longer than it. -/
def StartFits (os : Os Dir) (b : Boot Dir) : Prop :=
  b.home = some dotDot → (os.lookup b.cwd dotDot).2.length ≤ dotDot.length

theorem Os.Bounded.cwdString {os : Os Dir} (h : os.Bounded) (d : Dir) :
    (os.cwdString d).length < PATH_MAX := by
  unfold Os.cwdString
  cases hd : os.getcwd d with
  | none => exact h.malloc
  | some path => exact h.getcwd d path hd

/-- Start-up is safe exactly when it fits: only the string behind `HOME` can be too short. -/
theorem startSafe_iff {osR osL : Os Dir} (hL : osL.Bounded) (b : Boot Dir)
    (room : Nat → Nat → Nat) :
    StartSafe (capacity b.home room) osR osL b ↔ StartFits osR b := by
  have hread : (b.proc osR).mem.read b.right.workDir = .ok dotDot ↔ b.home = some dotDot :=
    orUndefined_eq_ok
  rw [StartSafe, StartFits, CopyFits, hread, lookup_dotDot]
  constructor
  · rintro ⟨hright, _⟩ hhome
    have hfits := hright hhome
    rw [hhome] at hfits
    exact Nat.le_of_succ_le_succ hfits
  · intro hhome
    refine ⟨fun h => ?_, fun ret right p hlist => ⟨fun _ => hL.cwdString _, ?_⟩⟩
    · have hfits := hhome h
      rw [h]
      exact Nat.succ_le_succ hfits
    · -- the copy goes to `main`'s buffer, and the new array does not disturb the old one
      intro ret' left p' hlist' id l hid hl
      refine ⟨l, ?_, rfl⟩
      obtain ⟨_, path, p₁, _, hp₁, _, hcases⟩ := listDir_cases hlist'
      have hl₁ : p₁.mem.list (some id) = .ok l := by
        rw [hp₁]
        split
        · exact (Memory.sameBut_strcpy p.mem .buffCurrDir _).list id l (fun _ => by simp) hl
        · exact hl
      rcases hcases with ⟨_, _, _, rfl, _⟩ | ⟨_, list, _, _, _, _, _, rfl⟩
      · exact hl₁
      · exact (Memory.sameBut_alloc p₁.mem .buffCurrDir list).list id l (fun _ => by simp) hl₁

/-- The program starts with its arrays apart. -/
theorem start_listsApart {osR osL : Os Dir} {b : Boot Dir} {s : State Dir}
    (h : start osR osL b = .ok s) : s.ListsApart := by
  obtain ⟨_, right, pR, dR, _, left, pL, dL, hlistR, _, hlistL, _, rfl⟩ := start_cases h
  cases listDir_first hlistR rfl
  cases listDir_first hlistL rfl
  obtain ⟨hret, _⟩ | ⟨_, hR, hlenR⟩ := listDir_ret hlistR
  · exact absurd hret (by decide)
  obtain ⟨hret, _⟩ | ⟨_, hL, hlenL⟩ := listDir_ret hlistL
  · exact absurd hret (by decide)
  -- the right panel has the array before the last, and the left one the last
  have hleft : ∀ id, left.nameList = some id → id = pR.mem.lists.length := fun id hid =>
    Option.some.inj (hid.symm.trans hL)
  have hright : ∀ id, right.nameList = some id → id + 1 = pR.mem.lists.length := fun id hid => by
    rw [hlenR, Option.some.inj (hid.symm.trans hR)]
  constructor
  · intro i id hid
    show id < pL.mem.lists.length
    cases i with
    | left => have := hleft id hid; omega
    | right => have := hright id hid; omega
  · intro i j hij id hid heq
    cases i with
    | left =>
      cases j with
      | left => exact hij rfl
      | right => have := hleft id hid; have := hright id heq; omega
    | right =>
      cases j with
      | left => have := hleft id heq; have := hright id hid; omega
      | right => exact hij rfl

/-! ### Runs -/

/-- **Going up never overruns `work_dir`** and changes no name on the screen if and only if `HOME`
    fits at start-up and every `ENTER` on `..` does: the path of the parent directory, with its NUL,
    has room in the name `..`, and the parent directory can be opened by it. -/
theorem copySafe_iff {osR osL : Os Dir} (hL : osL.Bounded) (b : Boot Dir) (room : Nat → Nat → Nat)
    (ls : List (Key × Os Dir)) :
    (StartSafe (capacity b.home room) osR osL b ∧ ∀ s, start osR osL b = .ok s →
        Along State.next (CopySafe (capacity b.home room)) s ls) ↔
      StartFits osR b ∧ ∀ s, start osR osL b = .ok s → Along State.next (ClimbFits room) s ls := by
  rw [startSafe_iff hL]
  refine and_congr_right fun _ => forall₂_congr fun s hs => ?_
  refine along_congr (I := State.ListsApart) (P := fun _ _ => True) (fun s l t hI _ _ ht => ?_)
    (fun s l hI _ => copySafe_step hI l) (start_listsApart hs)
    (along_of_forall (fun _ _ => trivial) _ ls)
  exact hI.handleKey (State.next_eq_some.mp ht)

/-- The room of a name in an entry that takes the 19 bytes in front of the name, the name and its
    NUL, rounded up to a multiple of 8. -/
def nameRoom (name : Str) : Nat := (19 + name.length + 1 + 7) / 8 * 8 - 19

/-- In a root directory whose path is `/` every `ENTER` on `..` is safe. -/
theorem copySafe_root :
    StartSafe (capacity (some [47]) fun _ _ => nameRoom dotDot) singleDir singleDir singleBoot ∧
      ∀ s, start singleDir singleDir singleBoot = .ok s →
        Along State.next (CopySafe (capacity (some [47]) fun _ _ => nameRoom dotDot)) s
          [(.ENTER, singleDir)] := by
  have hbounded : singleDir.Bounded :=
    ⟨fun _ path h => by cases h; decide, by decide⟩
  refine (copySafe_iff hbounded singleBoot (fun _ _ => nameRoom dotDot) [(.ENTER, singleDir)]).mpr
    ⟨fun h => absurd h (by decide), fun s _ => ⟨fun _ _ id e _ _ _ => ?_, fun _ _ => trivial⟩⟩
  exact ⟨show 2 ≤ nameRoom dotDot by decide, Or.inr fun h => by cases h⟩

/-- The directories `/`, `/home` and `/home/u`. -/
inductive HomeDir
  | root
  | home
  | user
deriving DecidableEq, Repr

namespace HomeDir

/-- The path of a directory. -/
def path : HomeDir → Str
  | root => [47]
  | home => [47, 104, 111, 109, 101]
  | user => [47, 104, 111, 109, 101, 47, 117]

/-- The parent of a directory. -/
def parent : HomeDir → HomeDir
  | root => root
  | home => root
  | user => home

/-- The names in a directory besides `.` and `..`. -/
def names : HomeDir → List Str
  | root => [[104, 111, 109, 101]]
  | home => [[117]]
  | user => []

/-- The directory a path leads to. -/
def walk (c : HomeDir) (path : Str) : Option HomeDir :=
  if path = dotDot then some c.parent
  else if path = root.path then some root
  else if path = home.path then some home
  else if path = user.path then some user
  else if path ∈ c.names then (if c = root then some home else some user)
  else none

/-- The system calls in the tree, in which everything can be read and entered. -/
def os : Os HomeDir where
  chdir := walk
  getcwd d := some d.path
  opendir := walk
  readdir d := ⟨([46] :: dotDot :: d.names).map fun n => ⟨n, DT_DIR⟩, by cases d <;> decide⟩
  lstat _ _ := some 0o040755
  malloc := []
  fork := true

end HomeDir

/-- From `/home/u` the path `/home` is copied over the name `..`, which has room for four bytes
    and a NUL, as every name in the tree has. -/
theorem not_copySafe :
    ¬ ∀ (Dir : Type) (osR osL : Os Dir) (b : Boot Dir) (ls : List (Key × Os Dir)),
      osL.Bounded → StartSafe (capacity b.home fun _ _ => nameRoom dotDot) osR osL b ∧
        ∀ s, start osR osL b = .ok s →
          Along State.next (CopySafe (capacity b.home fun _ _ => nameRoom dotDot)) s ls := by
  intro h
  have hbounded : HomeDir.os.Bounded :=
    ⟨fun d path h => by cases d <;> cases h <;> decide, by decide⟩
  have hstart : ∃ s e, start HomeDir.os HomeDir.os (.terminal .user HomeDir.user.path) = .ok s ∧
      s.leftWin.nameList = some 1 ∧ s.side = .left ∧ s.proc.cwd = HomeDir.user ∧
      s.proc.mem.entry (some 1) s.leftWin.selectedObj.toNat = .ok e ∧ e.dName = dotDot ∧
      e.dType = DT_DIR := ⟨_, _, rfl, rfl, rfl, rfl, rfl, rfl, rfl⟩
  obtain ⟨s, e, hs, hid, hside, hcwd, he, hname, htype⟩ := hstart
  obtain ⟨hsafe, _⟩ := (h HomeDir HomeDir.os HomeDir.os _ [(.ENTER, HomeDir.os)] hbounded).2 s hs
  have hfits := (copySafe_step (start_listsApart hs) _).mp hsafe rfl
  rw [State.SelectsExec, hside] at hfits
  obtain ⟨hlen, _⟩ := hfits (fun _ => by
    rintro ⟨e', he', hx⟩
    rw [State.win, hid, he] at he'
    cases he'
    rw [htype] at hx
    exact absurd hx (by decide)) 1 e hid he hname
  rw [hcwd] at hlen
  exact absurd hlen (by decide)

end EltexHomeworks.FileManager
