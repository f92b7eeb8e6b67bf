import EltexHomeworks.FileManager.Steps

namespace EltexHomeworks.FileManager

open EltexHomeworks.Lib

/-!
# File manager — a file tree, and `ListDir` in it

A `FileTree` is a file system that does not change while the program runs: `chdir` and `scandir`
resolve a path in the same way, an absolute path does not depend on the working directory, and no
name in a directory has a `/` in it.  Directories may be unreadable, or readable and still not to
be entered.

`listDir_tracks` says what `ListDir` does in a tree where the directory it opens can be entered:
the process is then in the directory the panel lists, and an absolute `work_dir` leads back to it
from everywhere.
-/

variable {Dir : Type}

/-- A path that starts at the root. -/
def Absolute (path : Str) : Prop := path.head? = some 47

instance (path : Str) : Decidable (Absolute path) := inferInstanceAs (Decidable (_ = _))

/-- A file system that stays as it is: the calls that walk along a path agree on where it ends, and
    `/` is what separates the names of a path. -/
structure FileTree (Dir : Type) where
  chdir : Dir → Str → Option Dir
  opendir : Dir → Str → Option Dir
  getcwd : Dir → Option Str
  readdir : Dir → { es : List Dirent // es.length < 2 ^ 31 }
  lstat : Dir → Str → Option UInt32
  /-- The walk along a path ends in one directory, whoever takes it. -/
  same_dir : ∀ c path d d', opendir c path = some d → chdir c path = some d' → d' = d
  /-- An absolute path is walked from the root. -/
  chdir_absolute : ∀ c c' path, Absolute path → chdir c path = chdir c' path
  opendir_absolute : ∀ c c' path, Absolute path → opendir c path = opendir c' path
  /-- The path of a directory starts at the root. -/
  getcwd_absolute : ∀ d path, getcwd d = some path → Absolute path
  /-- `/` separates names and is in none. -/
  slash_not_mem : ∀ d, ∀ e ∈ (readdir d).1, 47 ∉ e.dName

namespace FileTree

variable (t : FileTree Dir)

/-- The system calls in the tree; the string in a fresh `malloc` and the outcome of `fork` are
    left open. -/
def os (malloc : Str) (fork : Bool) : Os Dir where
  chdir := t.chdir
  getcwd := t.getcwd
  opendir := t.opendir
  readdir := t.readdir
  lstat := t.lstat
  malloc := malloc
  fork := fork

/-- All outcomes of system calls in the tree. -/
def world : Set (Os Dir) := { os | ∃ malloc fork, os = t.os malloc fork }

/-- The directory the process is in after `chdir("..")`. -/
def up (cwd : Dir) : Dir := (t.chdir cwd dotDot).getD cwd

/-- What `ListDir` needs of the name it opens.  For `..`: the path of the parent directory is
    known, and it can be read and entered.  For another name: if it can be read it can be
    entered. -/
def Opens (cwd : Dir) (name : Str) : Prop :=
  if name = dotDot then
    ∃ path, t.getcwd (t.up cwd) = some path ∧ t.opendir (t.up cwd) path ≠ none ∧
      t.chdir (t.up cwd) path ≠ none
  else t.opendir cwd name ≠ none → t.chdir cwd name ≠ none

end FileTree

/-- What `ListDir` leaves after it opened a directory: the panel has a new array of entries, the
    process is in the directory that is listed, and the path it was opened by leads there. -/
structure Tracks (t : FileTree Dir) (win w : Panel) (p p' : Process Dir) (list : Listing Dir)
    (path : Str) : Prop where
  dir : list.dir = p'.cwd
  names : ∀ e ∈ list.entries, 47 ∉ e.dName
  nameList : w.nameList = some p.mem.lists.length
  workDir : w.workDir = win.workDir
  active : w.active = win.active
  lists : p'.mem.lists.length = p.mem.lists.length + 1
  listed : p'.mem.list (some p.mem.lists.length) = .ok list
  sameBut : p.mem.SameBut win.workDir p'.mem
  read : p'.mem.read win.workDir = .ok path
  keeps : p.mem.Keeps p'.mem
  here : t.chdir p.cwd path = some p'.cwd
  back : Absolute path → ∀ c, t.chdir c path = some p'.cwd

/-- The directory that was opened is the one entered. -/
theorem FileTree.enter_eq {t : FileTree Dir} (malloc : Str) (fork : Bool) {c d : Dir} {path : Str}
    (ho : t.opendir c path = some d) (hc : t.chdir c path ≠ none) :
    (t.os malloc fork).enter c path = d ∧ t.chdir c path = some d ∧
      (Absolute path → ∀ c', t.chdir c' path = some d) := by
  obtain ⟨d', hd'⟩ := Option.ne_none_iff_exists'.mp hc
  have hdd : d' = d := t.same_dir c path d d' ho hd'
  subst hdd
  refine ⟨?_, hd', fun habs c' => ?_⟩
  · unfold Os.enter
    show (t.chdir c path).getD c = d'
    rw [hd', Option.getD_some]
  · rw [t.chdir_absolute c' c path habs]
    exact hd'

/-- The `..` branch of `ListDir`, when the path of the parent directory is known. -/
theorem FileTree.climb_eq {t : FileTree Dir} {malloc : Str} {fork : Bool} {win : Panel}
    {p : Process Dir} {path : Str} (h : t.getcwd (t.up p.cwd) = some path) :
    climb (t.os malloc fork) win p =
      { p with cwd := t.up p.cwd, mem := p.mem.strcpy win.workDir path } := by
  have hstr : (t.os malloc fork).cwdString (t.up p.cwd) = path := by
    unfold Os.cwdString
    show (t.getcwd (t.up p.cwd)).getD malloc = path
    rw [h, Option.getD_some]
  unfold climb
  show Process.mk (t.up p.cwd) (p.mem.strcpy win.workDir
    ((t.os malloc fork).cwdString (t.up p.cwd))) p.programs = _
  rw [hstr]

/-- **`ListDir` in a tree.**  If the name can be opened as `FileTree.Opens` says, `ListDir` either
    fails and changes nothing, or it tracks the directory it opens. -/
theorem listDir_tracks {t : FileTree Dir} {os : Os Dir} (hos : os ∈ t.world) {win w : Panel}
    {p p' : Process Dir} {ret : Int} {name : Str} (h : listDir os win p = .ok (ret, w, p'))
    (hname : p.mem.read win.workDir = .ok name) (ho : t.Opens p.cwd name) :
    (ret = -1 ∧ w = win ∧ p' = p ∧ t.opendir p.cwd name = none ∧
        ∃ l, p.mem.list win.nameList = .ok l) ∨
      ∃ list path, ret ≠ -1 ∧ Tracks t win w p p' list path := by
  obtain ⟨malloc, fork, rfl⟩ := hos
  obtain ⟨name', path, p₁, hname', hp₁, hpath, hcase⟩ := listDir_cases h
  rw [hname] at hname'
  cases hname'
  -- the copy of the path changes nothing but the string `work_dir` points at
  have hsame : p.mem.SameBut win.workDir p₁.mem ∧
      p₁.mem.lists.length = p.mem.lists.length ∧ p.mem.Keeps p₁.mem := by
    rw [hp₁]
    split
    · exact ⟨Memory.sameBut_strcpy _ _ _, Memory.length_lists_strcpy _ _ _,
        Memory.keeps_strcpy _ _ _⟩
    · exact ⟨⟨fun _ _ _ hl => hl, fun _ _ _ _ hr => hr⟩, rfl, Memory.Keeps.refl _⟩
  -- `scandir` gets a path that can be entered if it can be read; it can be read after `..`
  have hopen : (name = dotDot → t.opendir p₁.cwd path ≠ none) ∧
      (t.opendir p₁.cwd path ≠ none → t.chdir p₁.cwd path ≠ none) ∧
      (p₁.cwd = p.cwd ∨ Absolute path) := by
    unfold FileTree.Opens at ho
    by_cases hdot : name = dotDot
    · rw [if_pos hdot] at ho hp₁
      obtain ⟨path', hcwd, ho', hc'⟩ := ho
      rw [FileTree.climb_eq hcwd] at hp₁
      subst hp₁
      rw [show (p.mem.strcpy win.workDir path').read win.workDir = .ok path' from
        Memory.read_strcpy_self hname] at hpath
      cases hpath
      exact ⟨fun _ => ho', fun _ => hc', Or.inr (t.getcwd_absolute _ _ hcwd)⟩
    · rw [if_neg hdot] at ho hp₁
      subst hp₁
      rw [hname] at hpath
      cases hpath
      exact ⟨fun h => absurd h hdot, ho, Or.inl rfl⟩
  rcases hcase with ⟨hnone, hret, hw, hp', hl⟩ | ⟨dir, list, hdir, hret, hld, hnames, hw, hp'⟩
  · -- a failure, which was not after `..`: the process has not moved
    have hdot : name ≠ dotDot := fun hdot => hopen.1 hdot hnone
    rw [if_neg hdot] at hp₁
    subst hp₁
    rw [hname] at hpath
    cases hpath
    exact Or.inl ⟨hret, hw, hp', hnone, hl⟩
  · obtain ⟨henter, hhere, hback⟩ := FileTree.enter_eq malloc fork hdir
      (hopen.2.1 (by rw [show t.opendir p₁.cwd path = some dir from hdir]; simp))
    subst hw hp'
    refine Or.inr ⟨list, path, by omega, ?_, ?_, ?_, rfl, rfl, ?_, ?_, ?_, ?_, ?_, ?_, ?_⟩
    · exact hld.trans henter.symm
    · intro e he
      have hmem : e.dName ∈ (t.readdir dir).1.map (·.dName) := by
        have : e.dName ∈ list.entries.map (·.dName) := List.mem_map_of_mem he
        rw [hnames] at this
        exact this
      obtain ⟨e', he', hee⟩ := List.mem_map.mp hmem
      rw [← hee]
      exact t.slash_not_mem dir e' he'
    · rw [← hsame.2.1]
    · rw [← hsame.2.1, Memory.alloc, List.length_append]
      rfl
    · rw [← hsame.2.1]
      exact Memory.list_alloc _ _
    · exact hsame.1.trans (Memory.sameBut_alloc _ _ _)
    · exact Memory.read_alloc _ hpath
    · exact hsame.2.2.trans (Memory.keeps_alloc _ _)
    · show t.chdir p.cwd path = some ((t.os malloc fork).enter p₁.cwd path)
      rw [henter]
      rcases hopen.2.2 with hcwd | habs
      · rw [← hcwd]
        exact hhere
      · exact hback habs p.cwd
    · show Absolute path → ∀ c, t.chdir c path = some ((t.os malloc fork).enter p₁.cwd path)
      rw [henter]
      exact hback

end EltexHomeworks.FileManager
