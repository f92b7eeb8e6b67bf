import Mathlib.Algebra.Ring.Nat
import EltexHomeworks.Lib.CString
import EltexHomeworks.Lib.Transition

namespace EltexHomeworks.FileManager

open EltexHomeworks.Lib

/-!
# File manager — memory and system calls

What the panels and their handlers rest on: directory entries as `scandir` returns them, the
strings a panel's `work_dir` can point at, and the system calls.

* `Memory` keeps every array `scandir` ever returned, since the program frees none of them, so a
  pointer into an old one stays valid.  `StrRef` says what a `char *work_dir` points at and
  `Memory.strcpy` writes through such a pointer, also into the name of an entry.
* `Os` gives the outcome of each system call.  A run may meet another `Os` at each key, so
  nothing is assumed of the outcomes here.
* `Stop` is how a run ends other than by `q`: `exit`, or undefined behaviour of C.
-/

/-- How the program stops inside a handler. -/
inductive Stop
  /-- Undefined behaviour: an access outside an array or through a pointer never set. -/
  | undefined
  /-- `exit(EXIT_FAILURE)`. -/
  | exit
deriving DecidableEq, Repr

/-- A value that must be there, or the behaviour is undefined. -/
def orUndefined {α : Type} : Option α → Except Stop α
  | some a => .ok a
  | none => .error .undefined

theorem orUndefined_eq_ok {α : Type} {o : Option α} {a : α} :
    orUndefined o = .ok a ↔ o = some a := by
  cases o <;> simp [orUndefined]

/-! ### Directory entries -/

/-- `DT_DIR` of `dirent.h`. -/
def DT_DIR : UInt8 := 4

/-- `DT_REG` of `dirent.h`. -/
def DT_REG : UInt8 := 8

/-- The program's own type for executables. -/
def DT_EXEC : UInt8 := 16

/-- `S_ISDIR(mode)`. -/
def S_ISDIR (mode : UInt32) : Bool := mode &&& 0o170000 == 0o040000

/-- `S_ISREG(mode)`. -/
def S_ISREG (mode : UInt32) : Bool := mode &&& 0o170000 == 0o100000

/-- The program's own `S_ISEXEC(mode)`, the owner's execute bit `__S_IEXEC`. -/
def S_ISEXEC (mode : UInt32) : Bool := mode &&& 0o100 != 0

/-- A directory entry, as far as the program reads it. -/
structure Dirent where
  dName : Str
  dType : UInt8
deriving DecidableEq, Repr

/-- What one successful `scandir` returned: the directory it read and the array of its entries,
    whose length is an `int`. -/
structure Listing (Dir : Type) where
  dir : Dir
  entries : List Dirent
  length_lt : entries.length < 2 ^ 31

variable {Dir : Type}

/-- The names of a listing. -/
def Listing.names (l : Listing Dir) : List Str := l.entries.map (·.dName)

theorem Listing.names_length (l : Listing Dir) : l.names.length = l.entries.length :=
  List.length_map _

/-- The listing after every entry went through `f`. -/
def Listing.map (l : Listing Dir) (f : Dirent → Dirent) : Listing Dir where
  dir := l.dir
  entries := l.entries.map f
  length_lt := by rw [List.length_map]; exact l.length_lt

/-- The listing after `strcpy` into the name of entry `i`. -/
def Listing.rename (l : Listing Dir) (i : Nat) (name : Str) : Listing Dir where
  dir := l.dir
  entries := l.entries.modify i fun e => { e with dName := name }
  length_lt := by rw [List.length_modify]; exact l.length_lt

/-- The names after the copy. -/
theorem Listing.names_rename (l : Listing Dir) (i : Nat) (name : Str) :
    (l.rename i name).names = l.names.set i name := by
  apply List.ext_getElem?
  intro j
  simp only [names, rename, List.getElem?_map, List.getElem?_modify, List.getElem?_set,
    List.length_map]
  by_cases hij : i = j
  · subst hij
    by_cases hi : i < l.entries.length
    · simp [hi]
    · simp [hi]
  · simp [hij]

@[simp] theorem Listing.length_rename (l : Listing Dir) (i : Nat) (name : Str) :
    (l.rename i name).entries.length = l.entries.length := List.length_modify ..

/-! ### Memory -/

/-- What a `char *work_dir` points at. -/
inductive StrRef
  /-- `main`'s `malloc(PATH_MAX)`. -/
  | buffCurrDir
  /-- The result of `getenv("HOME")`. -/
  | home
  /-- The `d_name` of entry `i` of the `list`-th array returned by `scandir`. -/
  | dName (list i : Nat)
deriving DecidableEq, Repr

/-- The strings and arrays that outlive a handler. -/
structure Memory (Dir : Type) where
  buffCurrDir : Str
  /-- `none` when `HOME` is not set and `getenv` returned `NULL`. -/
  home : Option Str
  /-- The arrays returned by `scandir`, the oldest first. -/
  lists : List (Listing Dir)

namespace Memory

/-- The array `name_list` points at; `none` is a pointer never set. -/
def list (m : Memory Dir) (nameList : Option Nat) : Except Stop (Listing Dir) :=
  orUndefined (nameList.bind fun id => m.lists[id]?)

/-- `name_list[i]`. -/
def entry (m : Memory Dir) (nameList : Option Nat) (i : Nat) : Except Stop Dirent := do
  let l ← m.list nameList
  orUndefined l.entries[i]?

/-- The string a pointer points at. -/
def read (m : Memory Dir) : StrRef → Except Stop Str
  | .buffCurrDir => .ok m.buffCurrDir
  | .home => orUndefined m.home
  | .dName list i => do
      let e ← m.entry (some list) i
      return e.dName

/-- `strcpy(ref, s)`. -/
def strcpy (m : Memory Dir) (ref : StrRef) (s : Str) : Memory Dir :=
  match ref with
  | .buffCurrDir => { m with buffCurrDir := s }
  | .home => { m with home := some s }
  | .dName list i => { m with lists := m.lists.modify list fun l => l.rename i s }

/-- The memory after `scandir` allocated a new array, whose number is the old count. -/
def alloc (m : Memory Dir) (l : Listing Dir) : Memory Dir :=
  { m with lists := m.lists ++ [l] }

/-- Every array of `m` is still there in `m'`, with the same directory and number of entries;
    only names in it may have changed. -/
def Keeps (m m' : Memory Dir) : Prop :=
  ∀ (id : Nat) (l : Listing Dir), m.lists[id]? = some l →
    ∃ l' : Listing Dir, m'.lists[id]? = some l' ∧ l'.dir = l.dir ∧
      l'.entries.length = l.entries.length

theorem Keeps.refl (m : Memory Dir) : m.Keeps m := fun _ l h => ⟨l, h, rfl, rfl⟩

theorem Keeps.trans {m m' m'' : Memory Dir} (h : m.Keeps m') (h' : m'.Keeps m'') :
    m.Keeps m'' := by
  intro id l hl
  obtain ⟨l', hl', hd, hn⟩ := h id l hl
  obtain ⟨l'', hl'', hd', hn'⟩ := h' id l' hl'
  exact ⟨l'', hl'', hd'.trans hd, hn'.trans hn⟩

theorem keeps_strcpy (m : Memory Dir) (ref : StrRef) (s : Str) : m.Keeps (m.strcpy ref s) := by
  intro id l hl
  cases ref with
  | buffCurrDir => exact ⟨l, hl, rfl, rfl⟩
  | home => exact ⟨l, hl, rfl, rfl⟩
  | dName list i =>
    simp only [strcpy, List.getElem?_modify, hl]
    by_cases h : list = id
    · exact ⟨l.rename i s, by simp [h], rfl, l.length_rename i s⟩
    · exact ⟨l, by simp [h], rfl, rfl⟩

theorem keeps_alloc (m : Memory Dir) (l : Listing Dir) : m.Keeps (m.alloc l) := by
  intro id l' hl'
  obtain ⟨hid, _⟩ := List.getElem?_eq_some_iff.mp hl'
  exact ⟨l', by rw [alloc]; simpa only [List.getElem?_append_left hid] using hl', rfl, rfl⟩

/-- The array just allocated. -/
theorem list_alloc (m : Memory Dir) (l : Listing Dir) :
    (m.alloc l).list (some m.lists.length) = .ok l := by
  simp [list, alloc, orUndefined]

theorem list_some_eq_ok {m : Memory Dir} {id : Nat} {l : Listing Dir} :
    m.list (some id) = .ok l ↔ m.lists[id]? = some l := by
  rw [list, Option.bind_some, orUndefined_eq_ok]

/-- A pointer to an array is to one that `scandir` returned before. -/
theorem lt_of_list {m : Memory Dir} {id : Nat} {l : Listing Dir}
    (h : m.list (some id) = .ok l) : id < m.lists.length :=
  (List.getElem?_eq_some_iff.mp (list_some_eq_ok.mp h)).1

theorem list_none (m : Memory Dir) : m.list none = .error .undefined := rfl

/-! #### What reads see of writes -/

/-- Reading a name reads the entry it belongs to. -/
theorem read_dName_eq_ok {m : Memory Dir} {id i : Nat} {s : Str} :
    m.read (.dName id i) = .ok s ↔
      ∃ l e, m.lists[id]? = some l ∧ l.entries[i]? = some e ∧ e.dName = s := by
  rw [read, bind_eq_ok]
  constructor
  · rintro ⟨e, he, hs⟩
    rw [entry, bind_eq_ok] at he
    obtain ⟨l, hl, he⟩ := he
    cases hs
    exact ⟨l, e, list_some_eq_ok.mp hl, orUndefined_eq_ok.mp he, rfl⟩
  · rintro ⟨l, e, hl, he, rfl⟩
    refine ⟨e, ?_, rfl⟩
    rw [entry, bind_eq_ok]
    exact ⟨l, list_some_eq_ok.mpr hl, orUndefined_eq_ok.mpr he⟩

theorem list_strcpy_of_ne {m : Memory Dir} {ref : StrRef} {s : Str} {id : Nat}
    (h : ∀ i, ref ≠ .dName id i) : (m.strcpy ref s).list (some id) = m.list (some id) := by
  cases ref with
  | buffCurrDir => rfl
  | home => rfl
  | dName list i =>
    have hne : list ≠ id := fun he => h i (by rw [he])
    simp only [Memory.list, strcpy, Option.bind_some, List.getElem?_modify, if_neg hne]
    cases m.lists[id]? <;> rfl

/-- The array one of whose names is copied over. -/
theorem list_strcpy_self {m : Memory Dir} {id i : Nat} {s : Str} {l : Listing Dir}
    (h : m.list (some id) = .ok l) :
    (m.strcpy (.dName id i) s).list (some id) = .ok (l.rename i s) := by
  rw [list_some_eq_ok] at h ⊢
  simp [strcpy, h]

/-- A string is not changed by a copy over another one. -/
theorem read_strcpy_of_ne {m : Memory Dir} {ref ref' : StrRef} {s : Str}
    (h : ∀ id i j, ref = .dName id i → ref' ≠ .dName id j) (hne : ref ≠ ref') :
    (m.strcpy ref s).read ref' = m.read ref' := by
  cases ref' with
  | buffCurrDir => cases ref <;> first | rfl | exact absurd rfl hne
  | home => cases ref <;> first | rfl | exact absurd rfl hne
  | dName id j =>
    have hl := list_strcpy_of_ne (m := m) (s := s) fun i hi => h id i j hi rfl
    rw [read, read, entry, entry, hl]

/-- The entry whose name was copied over. -/
theorem entry_strcpy_self {m : Memory Dir} {id i : Nat} {e : Dirent} {s : Str}
    (h : m.entry (some id) i = .ok e) :
    (m.strcpy (.dName id i) s).entry (some id) i = .ok { e with dName := s } := by
  rw [entry, bind_eq_ok] at h ⊢
  obtain ⟨l, hl, he⟩ := h
  rw [orUndefined_eq_ok] at he
  refine ⟨l.rename i s, list_strcpy_self hl, orUndefined_eq_ok.mpr ?_⟩
  simp [Listing.rename, he]

/-- The name of an entry is read with it. -/
theorem read_of_entry {m : Memory Dir} {id i : Nat} {e : Dirent}
    (h : m.entry (some id) i = .ok e) : m.read (.dName id i) = .ok e.dName := by
  rw [read, h]
  rfl

/-- A string that can be read reads as what was copied over it. -/
theorem read_strcpy_self {m : Memory Dir} {ref : StrRef} {old s : Str}
    (h : m.read ref = .ok old) : (m.strcpy ref s).read ref = .ok s := by
  cases ref with
  | buffCurrDir => rfl
  | home => rfl
  | dName id i =>
    rw [read, bind_eq_ok] at h
    obtain ⟨e, he, _⟩ := h
    exact read_of_entry (entry_strcpy_self he)

/-- New arrays do not disturb old strings. -/
theorem read_alloc {m : Memory Dir} {ref : StrRef} {s : Str} (l : Listing Dir)
    (h : m.read ref = .ok s) : (m.alloc l).read ref = .ok s := by
  cases ref with
  | buffCurrDir => exact h
  | home => exact h
  | dName id i =>
    obtain ⟨l', e, hl', he, hs⟩ := read_dName_eq_ok.mp h
    obtain ⟨hid, _⟩ := List.getElem?_eq_some_iff.mp hl'
    refine read_dName_eq_ok.mpr ⟨l', e, ?_, he, hs⟩
    rw [alloc, List.getElem?_append_left hid]
    exact hl'

/-- `m'` is `m` up to the string `ref` points at, the array it may stand in, and new arrays. -/
structure SameBut (ref : StrRef) (m m' : Memory Dir) : Prop where
  list : ∀ id l, (∀ i, ref ≠ .dName id i) → m.list (some id) = .ok l → m'.list (some id) = .ok l
  read : ∀ ref' s, ref ≠ ref' → (∀ id i j, ref = .dName id i → ref' ≠ .dName id j) →
    m.read ref' = .ok s → m'.read ref' = .ok s

theorem sameBut_strcpy (m : Memory Dir) (ref : StrRef) (s : Str) :
    SameBut ref m (m.strcpy ref s) where
  list _ _ h hl := (list_strcpy_of_ne h).trans hl
  read _ _ hne h hr := (read_strcpy_of_ne h hne).trans hr

theorem sameBut_alloc (m : Memory Dir) (ref : StrRef) (l : Listing Dir) :
    SameBut ref m (m.alloc l) where
  list id l' _ hl' := by
    rw [list_some_eq_ok] at hl' ⊢
    obtain ⟨hid, _⟩ := List.getElem?_eq_some_iff.mp hl'
    rw [alloc, List.getElem?_append_left hid]
    exact hl'
  read ref' s _ _ hr := read_alloc l hr

theorem SameBut.trans {ref : StrRef} {m m' m'' : Memory Dir} (h : SameBut ref m m')
    (h' : SameBut ref m' m'') : SameBut ref m m'' where
  list id l hne hl := h'.list id l hne (h.list id l hne hl)
  read ref' s hne hsep hr := h'.read ref' s hne hsep (h.read ref' s hne hsep hr)

theorem length_lists_strcpy (m : Memory Dir) (ref : StrRef) (s : Str) :
    (m.strcpy ref s).lists.length = m.lists.length := by
  cases ref <;> simp [strcpy]

end Memory

/-! ### System calls -/

/-- The outcomes of the system calls, relative to the working directory of the process.  Each key
    is handled with outcomes of its own: between two keys anything may happen to the file system. -/
structure Os (Dir : Type) where
  /-- `chdir(path)`: the new working directory, `none` for `-1`. -/
  chdir : Dir → Str → Option Dir
  /-- `getcwd(buf, PATH_MAX)`: the path written to `buf`, `none` for `NULL`. -/
  getcwd : Dir → Option Str
  /-- The directory `scandir(path)` opens, `none` for `-1`. -/
  opendir : Dir → Str → Option Dir
  /-- The entries of an opened directory, in the order of `alphasort`. -/
  readdir : Dir → { es : List Dirent // es.length < 2 ^ 31 }
  /-- `lstat(name)`: the `st_mode` of the file, `none` for `-1`. -/
  lstat : Dir → Str → Option UInt32
  /-- The string a fresh `malloc(PATH_MAX)` happens to hold. -/
  malloc : Str
  /-- Whether `fork` succeeds. -/
  fork : Bool

namespace Os

variable (os : Os Dir)

/-- `scandir(path, &name_list, NULL, alphasort)`. -/
def scandir (cwd : Dir) (path : Str) : Option (Listing Dir) :=
  (os.opendir cwd path).map fun dir => ⟨dir, (os.readdir dir).1, (os.readdir dir).2⟩

/-- The working directory after `chdir(path)`, whose result the program never looks at. -/
def enter (cwd : Dir) (path : Str) : Dir := (os.chdir cwd path).getD cwd

/-- The string in a fresh `malloc(PATH_MAX)` after `getcwd` wrote to it, or failed to. -/
def cwdString (cwd : Dir) : Str := (os.getcwd cwd).getD os.malloc

end Os

/-- The state of the process outside the panels. -/
structure Process (Dir : Type) where
  /-- The current working directory. -/
  cwd : Dir
  mem : Memory Dir
  /-- The programs run so far, each with the directory it was started in. -/
  programs : List (Dir × Str)

end EltexHomeworks.FileManager
