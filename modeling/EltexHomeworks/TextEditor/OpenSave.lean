import EltexHomeworks.TextEditor.Editor

namespace EltexHomeworks.TextEditor

open EltexHomeworks.Lib

/-!
# Text editor — opening a file and saving it

`main` fills `read_buf` by count and `SafeFile` writes it back by `strlen`: neither the number of
bytes read nor a terminator is kept.  `save_iff` says for which files and which leftovers in
`read_buf` a save without any edit leaves the file as it was.
-/

variable {maxY maxX : Nat} {screen : Str → Window maxY maxX}
  {draw : Nat → Window maxY maxX → Window maxY maxX}

namespace Editor

/-- `main` up to its loop, with `buf` as it lies on the stack: the beginning of the file is read
    into it, and the string there is shown; `none` when `printw` finds no terminator.  `screen` is
    what curses draws for the string and the status bar. -/
def start (screen : Str → Window maxY maxX) (buf : CharArray BUF_SIZE) (file : List UInt8) :
    Option (Editor maxY maxX) :=
  let buf := buf.recv (file.take BUF_SIZE)
  if 0 ∈ buf.bytes then
    some { mode := .command, win := screen (text buf.bytes), readBuf := buf, file := file }
  else none

/-- The start goes through when there is a terminator to find. -/
theorem start_eq_some_iff {s : Editor maxY maxX} {buf : CharArray BUF_SIZE} {file : List UInt8} :
    start screen buf file = some s ↔ 0 ∈ (buf.recv (file.take BUF_SIZE)).bytes ∧
      s = { mode := .command, win := screen (text (buf.recv (file.take BUF_SIZE)).bytes),
            readBuf := buf.recv (file.take BUF_SIZE), file := file } := by
  unfold start
  rw [Option.ite_none_right_eq_some, Option.some_inj, eq_comm (b := s)]

/-- The key `s` in command mode. -/
theorem next_save {s : Editor maxY maxX} (hmode : s.mode = .command) (h0 : 0 ∈ s.readBuf.bytes) :
    s.next draw 's'.toNat = some { s with
      file := text s.readBuf.bytes ++ s.file.drop (text s.readBuf.bytes).length } := by
  rw [next_command draw hmode, command, if_neg (by decide), if_neg (by decide), if_neg (by decide),
    if_neg (by decide), if_neg (by decide), if_neg (by decide), if_pos rfl, safeFile, if_pos h0]
  rfl

/-- The key `s` after the start: the string in the buffer is written over the beginning of the
    file. -/
theorem start_save_iff {buf : CharArray BUF_SIZE} {file saved : List UInt8} :
    (∃ s, start screen buf file = some s ∧
        ∃ t, s.next draw 's'.toNat = some t ∧ t.file = saved) ↔
      0 ∈ (buf.recv (file.take BUF_SIZE)).bytes ∧
        text (buf.recv (file.take BUF_SIZE)).bytes ++
          file.drop (text (buf.recv (file.take BUF_SIZE)).bytes).length = saved := by
  constructor
  · rintro ⟨s, hs, t, ht, rfl⟩
    obtain ⟨h0, rfl⟩ := start_eq_some_iff.mp hs
    rw [next_save rfl h0] at ht
    cases ht
    exact ⟨h0, rfl⟩
  · rintro ⟨h0, rfl⟩
    exact ⟨_, start_eq_some_iff.mpr ⟨h0, rfl⟩, _, next_save rfl h0, rfl⟩

/-- **A save without any edit** leaves the file as it was if and only if the file has a NUL among
    the bytes read, or is shorter than `read_buf` and finds a NUL there right behind its last
    byte. -/
theorem save_iff (screen : Str → Window maxY maxX)
    (draw : Nat → Window maxY maxX → Window maxY maxX) (buf : CharArray BUF_SIZE)
    (file : List UInt8) :
    (∃ s, start screen buf file = some s ∧ ∃ t, s.next draw 's'.toNat = some t ∧ t.file = file) ↔
      0 ∈ file.take BUF_SIZE ∨ buf.bytes[file.length]? = some 0 := by
  have hread : (file.take BUF_SIZE).length ≤ BUF_SIZE := List.length_take_le ..
  rw [start_save_iff, buf.bytes_recv hread]
  by_cases h0 : 0 ∈ file.take BUF_SIZE
  · -- the string ends inside the file, of which it is the beginning
    refine iff_of_true ⟨List.mem_append_left _ h0, ?_⟩ (Or.inl h0)
    rw [text_append_of_mem h0]
    have hprefix : text (file.take BUF_SIZE) <+: file :=
      (List.takeWhile_prefix _).trans (List.take_prefix ..)
    exact List.prefix_iff_eq_append.mp hprefix
  · rw [text_append_of_not_mem h0, or_iff_right h0]
    by_cases hlen : file.length < BUF_SIZE
    · -- the whole file is in the buffer, and the string goes on behind it
      have hbuf : file.length < buf.bytes.length := by rw [buf.length_eq]; exact hlen
      rw [List.take_of_length_le (Nat.le_of_lt hlen)] at h0 ⊢
      have hover : file.drop (file ++ text (buf.bytes.drop file.length)).length = [] :=
        List.drop_of_length_le (by rw [List.length_append]; exact Nat.le_add_right ..)
      rw [hover, List.append_nil, List.append_right_eq_self, text_eq_nil_iff, List.head?_drop,
        List.getElem?_eq_getElem hbuf, List.mem_append, or_iff_right h0]
      constructor
      · rintro ⟨_, hhead⟩
        rw [hhead _ rfl]
      · intro hhead
        refine ⟨List.mem_of_getElem? (i := 0) ?_, fun c hc => ?_⟩
        · rw [List.getElem?_drop, Nat.add_zero, List.getElem?_eq_getElem hbuf, hhead]
        · exact Option.some.inj (hc.symm.trans hhead)
    · -- the buffer is full, without a terminator
      have hle : BUF_SIZE ≤ file.length := Nat.not_lt.mp hlen
      have hdrop : buf.bytes.drop (file.take BUF_SIZE).length = [] := by
        rw [List.length_take_of_le hle, List.drop_of_length_le (Nat.le_of_eq buf.length_eq)]
      rw [hdrop, List.append_nil, List.getElem?_eq_none (by rw [buf.length_eq]; exact hle)]
      exact iff_of_false (fun h => h0 h.1) (by simp)

/-- A stack with `xx` in front of its NULs. -/
def leftover : CharArray BUF_SIZE where
  bytes := 120 :: 120 :: List.replicate 2398 0
  length_eq := by
    rw [List.length_cons, List.length_cons, List.length_replicate]
    rfl

/-- A file of the one byte `a` comes back with the `x` that lay behind it. -/
theorem not_save :
    ¬ ∀ (maxY maxX : Nat) (screen : Str → Window maxY maxX)
      (draw : Nat → Window maxY maxX → Window maxY maxX) (buf : CharArray BUF_SIZE)
      (file : List UInt8),
      ∃ s, start screen buf file = some s ∧
        ∃ t, s.next draw 's'.toNat = some t ∧ t.file = file := by
  intro h
  have hsave := h 1 1 (fun _ => ⟨fun _ _ => blank, 0, 0⟩) (fun _ w => w) leftover [97]
  obtain ⟨_, hfile⟩ := start_save_iff.mp hsave
  rw [leftover.bytes_recv (List.length_take_le ..)] at hfile
  have htext : text ([97] ++ leftover.bytes.drop 1) = [97, 120] := rfl
  rw [List.take_of_length_le (by decide), List.length_singleton, htext] at hfile
  exact absurd hfile (by decide)

end Editor

end EltexHomeworks.TextEditor
