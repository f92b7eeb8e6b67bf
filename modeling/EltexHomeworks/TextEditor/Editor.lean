import EltexHomeworks.Lib.Run
import EltexHomeworks.TextEditor.Window

namespace EltexHomeworks.TextEditor

open EltexHomeworks.Lib

/-!
# Text editor — the command loop and the insert mode

`next` handles one key: `command` is the loop of `main`, `writeInWin` the loop of `WriteInWin` and
`callHelp` the second key of `CallHelp`.  The editor keeps the text twice, in the cells of the
window and in `read_buf`.  A step is `none` when it would leave `read_buf`.

What curses draws for a key that is neither printable nor handled by the editor is left open: `draw`.
-/

/-- The size of `read_buf`. -/
def BUF_SIZE : Nat := 2400

/-! ### Keys -/

def ESC : Nat := 27
def KEY_DOWN : Nat := 0o402
def KEY_UP : Nat := 0o403
def KEY_LEFT : Nat := 0o404
def KEY_RIGHT : Nat := 0o405
def KEY_BACKSPACE : Nat := 0o407

/-- The characters from the space to the tilde. -/
def Printable (key : Nat) : Prop := 32 ≤ key ∧ key ≤ 126

instance (key : Nat) : Decidable (Printable key) := inferInstanceAs (Decidable (_ ∧ _))

/-- Which loop reads the next key. -/
inductive Mode
  | command
  | insert
  | help
  | closed
deriving DecidableEq, Repr

/-- The editor between two keys. -/
structure Editor (maxY maxX : Nat) where
  mode : Mode
  win : Window maxY maxX
  readBuf : CharArray BUF_SIZE
  /-- The bytes of the file. -/
  file : List UInt8

namespace Editor

variable {maxY maxX : Nat} (draw : Nat → Window maxY maxX → Window maxY maxX)
  (s : Editor maxY maxX)

/-! ### `WriteInWin` -/

/-- The index `y1*max_y + x1` of the store; it has no overflow on a screen that fits `read_buf`. -/
def index : Nat := s.win.y * maxY + s.win.x

/-- `read_buf[y1*max_y + x1] = c`. -/
def store (c : UInt8) : Option (CharArray BUF_SIZE) :=
  if s.index < BUF_SIZE then some (s.readBuf.set s.index c) else none

/-- `addch(key)` for any key. -/
def addKey (key : Nat) : Window maxY maxX :=
  if Printable key then s.win.addch (UInt8.ofNat key) else draw key s.win

/-- One turn of the loop of `WriteInWin`; `none` when it stores behind `read_buf`.  The byte is
    stored at the place of the cursor before the key moves it. -/
def writeInWin (key : Nat) : Option (Editor maxY maxX) :=
  if key = ESC then some { s with mode := .command }
  else if key = KEY_BACKSPACE then
    if s.win.x.val = 0 then do
      let buf ← s.store blank
      return { s with win := s.win.delch, readBuf := buf }
    else do
      let buf ← s.store blank
      return { s with win := (s.win.addch blank).move s.win.y (s.win.x - 1), readBuf := buf }
  else do
    let buf ← s.store (UInt8.ofNat key)
    return { s with win := s.addKey draw key, readBuf := buf }

/-! ### The command mode -/

/-- `Press 'h' for help`. -/
def pressH : Str :=
  [80, 114, 101, 115, 115, 32, 39, 104, 39, 32, 102, 111, 114, 32, 104, 101, 108, 112]

/-- `Press h again for close help`. -/
def pressHAgain : Str :=
  [80, 114, 101, 115, 115, 32, 104, 32, 97, 103, 97, 105, 110, 32, 102, 111, 114, 32, 99, 108, 111,
    115, 101, 32, 104, 101, 108, 112]

/-- The status bar; `insert mode` has 11 characters. -/
def statusbar (msg : Str) : Window maxY maxX := s.win.bar (maxX - 11) msg

/-- `SafeFile`: the string in `read_buf` is written over the beginning of the file; `none` when
    `strlen` finds no terminator. -/
def safeFile : Option (List UInt8) :=
  if 0 ∈ s.readBuf.bytes then
    some (text s.readBuf.bytes ++ s.file.drop (text s.readBuf.bytes).length)
  else none

/-- One turn of the loop of `main`; `none` when `SafeFile` reads behind `read_buf`.  A cursor key
    at the edge of the window leaves the cursor there. -/
def command (key : Nat) : Option (Editor maxY maxX) :=
  if key = 'q'.toNat then some { s with mode := .closed }
  else if key = KEY_UP then some { s with win := s.win.move (s.win.y - 1) s.win.x }
  else if key = KEY_DOWN then some { s with win := s.win.move (s.win.y + 1) s.win.x }
  else if key = KEY_RIGHT then some { s with win := s.win.move s.win.y (s.win.x + 1) }
  else if key = KEY_LEFT then some { s with win := s.win.move s.win.y (s.win.x - 1) }
  else if key = 'i'.toNat then some { s with mode := .insert }
  else if key = 's'.toNat then do
    let file ← s.safeFile
    return { s with file := file }
  else if key = 'h'.toNat then some { s with mode := .help, win := s.statusbar pressHAgain }
  else some s

/-- The key `CallHelp` waits for. -/
def callHelp (key : Nat) : Editor maxY maxX :=
  if key = 'h'.toNat then { s with mode := .command, win := s.statusbar pressH }
  else { s with mode := .command }

/-- One key. -/
def next (key : Nat) : Option (Editor maxY maxX) :=
  match s.mode with
  | .command => s.command key
  | .insert => s.writeInWin draw key
  | .help => some (s.callHelp key)
  | .closed => none

variable {s}

theorem next_command (h : s.mode = .command) (key : Nat) : s.next draw key = s.command key := by
  rw [next, h]

theorem next_insert (h : s.mode = .insert) (key : Nat) :
    s.next draw key = s.writeInWin draw key := by
  rw [next, h]

/-- A printable key is stored, and drawn under the cursor. -/
theorem next_printable (h : s.mode = .insert) {key : Nat} (hkey : Printable key) :
    s.next draw key = (s.store (UInt8.ofNat key)).bind fun buf =>
      some { s with win := s.win.addch (UInt8.ofNat key), readBuf := buf } := by
  have hesc : key ≠ ESC := by rintro rfl; exact absurd hkey (by decide)
  have hbs : key ≠ KEY_BACKSPACE := by rintro rfl; exact absurd hkey (by decide)
  rw [next_insert draw h, writeInWin, if_neg hesc, if_neg hbs, addKey, if_pos hkey]
  rfl

/-- `KEY_BACKSPACE` in the first column stores one blank and moves the row. -/
theorem next_backspace_first (h : s.mode = .insert) (hx : s.win.x.val = 0) :
    s.next draw KEY_BACKSPACE = (s.store blank).bind fun buf =>
      some { s with win := s.win.delch, readBuf := buf } := by
  rw [next_insert draw h, writeInWin, if_neg (by decide), if_pos rfl, if_pos hx]
  rfl

/-- `KEY_BACKSPACE` in another column blanks the cell under the cursor and goes left. -/
theorem next_backspace (h : s.mode = .insert) (hx : s.win.x.val ≠ 0) :
    s.next draw KEY_BACKSPACE = (s.store blank).bind fun buf =>
      some { s with win := (s.win.addch blank).move s.win.y (s.win.x - 1), readBuf := buf } := by
  rw [next_insert draw h, writeInWin, if_neg (by decide), if_pos rfl, if_neg hx]
  rfl

theorem next_esc (h : s.mode = .insert) : s.next draw ESC = some { s with mode := .command } := by
  rw [next_insert draw h, writeInWin, if_pos rfl]

/-! ### One store -/

/-- What a store leaves in the buffer. -/
theorem store_eq_some {c : UInt8} {buf : CharArray BUF_SIZE} (h : s.store c = some buf) :
    s.index < BUF_SIZE ∧
      ∀ i, buf.bytes[i]? = if i = s.index then some c else s.readBuf.bytes[i]? := by
  unfold store at h
  split at h
  · rename_i hi
    cases h
    refine ⟨hi, fun i => ?_⟩
    show (s.readBuf.bytes.set s.index c)[i]? = _
    rw [List.getElem?_set, s.readBuf.length_eq]
    by_cases hc : s.index = i
    · subst hc
      rw [if_pos rfl, if_pos hi, if_pos rfl]
    · rw [if_neg hc, if_neg (Ne.symm hc)]
  · cases h

theorem toNat_ofNat_of_printable {key : Nat} (h : Printable key) :
    (UInt8.ofNat key).toNat = key := by
  have := h.2
  rw [UInt8.toNat_ofNat']
  omega

end Editor

end EltexHomeworks.TextEditor
