import EltexHomeworks.TextEditor.OpenSave
import Mathlib.Data.List.ProdSigma
import Mathlib.Data.List.FinRange

namespace EltexHomeworks.TextEditor

open EltexHomeworks.Lib

/-!
# Text editor — the bounds of `read_buf`

`main` fills `read_buf` by count and shows it as a string, `SafeFile` takes its length with `strlen`,
and `WriteInWin` stores at a place that the cursor gives.  None of them checks the size of the
buffer.

* `accesses` — the indices one key reads or writes;
* `inBuffer_iff` — for which files and keys all accesses are inside, and for which files and
  terminals they are whatever the keys.
-/

variable {maxY maxX : Nat} {s t : Editor maxY maxX} {screen : Str → Window maxY maxX}
  {draw : Nat → Window maxY maxX → Window maxY maxX}

/-- The indices a string function reads that looks for the terminator in `b`: the last one is that of
    the first NUL, and behind the end of `b` when there is none. -/
def scanned (b : List UInt8) : List Nat := List.range ((text b).length + 1)

/-- A string function stays in a block exactly when there is a terminator. -/
theorem scanned_lt_iff {b : List UInt8} {n : Nat} (hb : b.length = n) :
    (∀ i ∈ scanned b, i < n) ↔ 0 ∈ b := by
  unfold scanned
  constructor
  · intro h
    by_contra h0
    rw [text_of_not_mem h0, hb] at h
    exact Nat.lt_irrefl n (h n (List.mem_range.mpr (Nat.lt_succ_self n)))
  · intro h0 i hi
    have := length_text_lt h0
    have := List.mem_range.mp hi
    omega

/-- `read_buf` after `main` has read the file over `buf`. -/
def loaded (buf : CharArray BUF_SIZE) (file : List UInt8) : CharArray BUF_SIZE :=
  buf.recv (file.take BUF_SIZE)

/-- The indices `main` accesses before its loop: those `read` fills and those `printw` reads. -/
def startAccesses (buf : CharArray BUF_SIZE) (file : List UInt8) : List Nat :=
  List.range (file.take BUF_SIZE).length ++ scanned (loaded buf file).bytes

namespace Editor

/-- The indices of `read_buf` that one key accesses: `WriteInWin` stores one byte, `SafeFile` takes
    the length of the string and writes it out. -/
def accesses (s : Editor maxY maxX) (key : Nat) : List Nat :=
  match s.mode with
  | .command =>
    if key = 's'.toNat then
      scanned s.readBuf.bytes ++ List.range (text s.readBuf.bytes).length
    else []
  | .insert => if key = ESC then [] else [s.index]
  | .help => []
  | .closed => []

/-- No access of the whole run leaves `read_buf`. -/
def InBuffer (screen : Str → Window maxY maxX) (draw : Nat → Window maxY maxX → Window maxY maxX)
    (buf : CharArray BUF_SIZE) (file : List UInt8) (keys : List Nat) : Prop :=
  (∀ i ∈ startAccesses buf file, i < BUF_SIZE) ∧
    ∀ s, start screen buf file = some s →
      Along (next draw) (fun s key => ∀ i ∈ s.accesses key, i < BUF_SIZE) s keys

/-- Where the key stores, the cell under the cursor has its byte inside; where it saves, there is a
    terminator. -/
def Inside (s : Editor maxY maxX) (key : Nat) : Prop :=
  (s.mode = .insert → key ≠ ESC → s.win.y * maxY + s.win.x < BUF_SIZE) ∧
    (s.mode = .command → key = 's'.toNat → 0 ∈ s.readBuf.bytes)

/-! ### One key -/

/-- The accesses of one key. -/
theorem accesses_lt_iff (s : Editor maxY maxX) (key : Nat) :
    (∀ i ∈ s.accesses key, i < BUF_SIZE) ↔ s.Inside key := by
  unfold accesses Inside
  cases hmode : s.mode with
  | command =>
    by_cases hkey : key = 's'.toNat
    · rw [if_pos hkey, ← scanned_lt_iff s.readBuf.length_eq]
      constructor
      · intro h
        exact ⟨fun hm => (by cases hm), fun _ _ i hi => h i (List.mem_append_left _ hi)⟩
      · -- `write` reads no further than `strlen`
        intro h i hi
        rcases List.mem_append.mp hi with hi | hi
        · exact h.2 rfl hkey i hi
        · refine h.2 rfl hkey i (List.mem_range.mpr ?_)
          exact Nat.lt_succ_of_lt (List.mem_range.mp hi)
    · rw [if_neg hkey]
      exact iff_of_true (by simp) ⟨fun hm => (by cases hm), fun _ hk => absurd hk hkey⟩
  | insert =>
    by_cases hkey : key = ESC
    · rw [if_pos hkey]
      exact iff_of_true (by simp) ⟨fun _ hne => absurd hkey hne, fun hm => (by cases hm)⟩
    · rw [if_neg hkey, List.forall_mem_singleton]
      exact ⟨fun h => ⟨fun _ _ => h, fun hm => (by cases hm)⟩, fun h => h.1 rfl hkey⟩
  | help => simp
  | closed => simp

/-- The command mode leaves `read_buf` as it is. -/
theorem readBuf_command {key : Nat} (h : s.command key = some t) : t.readBuf = s.readBuf := by
  by_cases hkey : key = 's'.toNat
  · subst hkey
    obtain ⟨file, _, h⟩ := Option.bind_eq_some_iff.mp h
    cases h
    rfl
  · unfold command at h
    rw [if_neg hkey] at h
    split_ifs at h
    all_goals
      cases h
      rfl

/-- The insert mode stores at the cursor. -/
theorem readBuf_writeInWin {key : Nat} (h : s.writeInWin draw key = some t) :
    t.readBuf = s.readBuf ∨ ∃ c, s.store c = some t.readBuf := by
  unfold writeInWin at h
  split_ifs at h
  · cases h
    exact Or.inl rfl
  all_goals
    obtain ⟨buf, hbuf, h⟩ := Option.bind_eq_some_iff.mp h
    cases h
    exact Or.inr ⟨_, hbuf⟩

/-- A key changes `read_buf` by a store at the cursor at most. -/
theorem readBuf_next {key : Nat} (h : s.next draw key = some t) :
    t.readBuf = s.readBuf ∨ ∃ c, s.store c = some t.readBuf := by
  cases hmode : s.mode with
  | command =>
    rw [next_command draw hmode] at h
    exact Or.inl (readBuf_command h)
  | insert =>
    rw [next_insert draw hmode] at h
    exact readBuf_writeInWin h
  | help =>
    rw [next, hmode] at h
    cases h
    left
    unfold callHelp
    split <;> rfl
  | closed =>
    rw [next, hmode] at h
    cases h

/-! ### A terminal that fits -/

/-- The last cell has the last byte. -/
theorem corner_lt_iff (w : Window maxY maxX) :
    (∀ (y : Fin maxY) (x : Fin maxX), y * maxY + x < BUF_SIZE) ↔
      (maxY - 1) * maxY + (maxX - 1) < BUF_SIZE := by
  have hy := w.y.isLt
  have hx := w.x.isLt
  constructor
  · intro h
    exact h ⟨maxY - 1, by omega⟩ ⟨maxX - 1, by omega⟩
  · intro h y x
    have hrow : y.val * maxY ≤ (maxY - 1) * maxY := Nat.mul_le_mul_right _ (by omega)
    omega

/-- A byte that belongs to no cell stays. -/
theorem getElem?_next {i key : Nat} (hi : ∀ (y : Fin maxY) (x : Fin maxX), y * maxY + x ≠ i)
    (h : s.next draw key = some t) : t.readBuf.bytes[i]? = s.readBuf.bytes[i]? := by
  rcases readBuf_next h with hbuf | ⟨c, hbuf⟩
  · rw [hbuf]
  · have hne : i ≠ s.index := Ne.symm (hi s.win.y s.win.x)
    rw [(store_eq_some hbuf).2, if_neg hne]

/-- **Enough room**: when every cell has a byte, and a NUL stands at a place that belongs to none,
    every key of every run is handled inside. -/
theorem along_inside (hcorner : ∀ (y : Fin maxY) (x : Fin maxX), y * maxY + x < BUF_SIZE) {i : Nat}
    (hi : ∀ (y : Fin maxY) (x : Fin maxX), y * maxY + x ≠ i) (hs : s.readBuf.bytes[i]? = some 0)
    (keys : List Nat) : Along (next draw) Inside s keys := by
  refine along_of_keeps (I := fun s => s.readBuf.bytes[i]? = some 0) ?_ ?_ hs keys
  · intro s key t hs ht
    rw [getElem?_next hi ht, hs]
  · intro s key hs
    exact ⟨fun _ _ => hcorner s.win.y s.win.x, fun _ _ => List.mem_of_getElem? hs⟩

/-! ### A terminal on which everything is reached -/

variable (draw)

/-- The editor with the cursor moved. -/
def goto (s : Editor maxY maxX) (y : Fin maxY) (x : Fin maxX) : Editor maxY maxX :=
  { s with win := { s.win with y := y, x := x } }

/-- Up and down a column. -/
theorem leads_column (hmode : s.mode = .command) (x : Fin maxX) (y y' : Fin maxY) :
    Leads (next draw) (s.goto y x) (s.goto y' x) := by
  refine leads_row (f := fun y => s.goto y x) (fun y y' hy => ?_) y y'
  rcases hy with hdown | hup
  · refine Leads.of_next (a := KEY_DOWN) ((next_command draw (s := s.goto y x) hmode _).trans ?_)
    show some { s.goto y x with win := (s.goto y x).win.move (y + 1) x } = _
    rw [Window.move_eq _ y' x (by omega) rfl]
    rfl
  · refine Leads.of_next (a := KEY_UP) ((next_command draw (s := s.goto y x) hmode _).trans ?_)
    show some { s.goto y x with win := (s.goto y x).win.move (y - 1) x } = _
    rw [Window.move_eq _ y' x (by omega) rfl]
    rfl

/-- Left and right in a row. -/
theorem leads_columns (hmode : s.mode = .command) (y : Fin maxY) (x x' : Fin maxX) :
    Leads (next draw) (s.goto y x) (s.goto y x') := by
  refine leads_row (f := fun x => s.goto y x) (fun x x' hx => ?_) x x'
  rcases hx with hright | hleft
  · refine Leads.of_next (a := KEY_RIGHT) ((next_command draw (s := s.goto y x) hmode _).trans ?_)
    show some { s.goto y x with win := (s.goto y x).win.move y (x + 1) } = _
    rw [Window.move_eq _ y x' rfl (by omega)]
    rfl
  · refine Leads.of_next (a := KEY_LEFT) ((next_command draw (s := s.goto y x) hmode _).trans ?_)
    show some { s.goto y x with win := (s.goto y x).win.move y (x - 1) } = _
    rw [Window.move_eq _ y x' rfl (by omega)]
    rfl

/-- The cursor keys lead to every cell. -/
theorem leads_goto (hmode : s.mode = .command) (y : Fin maxY) (x : Fin maxX) :
    Leads (next draw) s (s.goto y x) :=
  (leads_column draw hmode s.win.x s.win.y y).trans (leads_columns draw hmode y s.win.x x)

/-- The insert mode is entered at every cell. -/
theorem leads_insert (hmode : s.mode = .command) (y : Fin maxY) (x : Fin maxX) :
    Leads (next draw) s { s.goto y x with mode := .insert } :=
  (leads_goto draw hmode y x).trans
    (Leads.of_next (a := 'i'.toNat) (next_command draw (s := s.goto y x) hmode _))

/-- Every byte of a cell can be stored to. -/
theorem leads_store (hmode : s.mode = .command) {y : Fin maxY} {x : Fin maxX}
    (hi : y * maxY + x < BUF_SIZE) :
    ∃ t, Leads (next draw) s t ∧ t.mode = .command ∧
      ∀ i, t.readBuf.bytes[i]? = if i = y * maxY + x then some 97 else s.readBuf.bytes[i]? := by
  have hins := leads_insert draw hmode y x
  generalize hu : ({ s.goto y x with mode := .insert } : Editor maxY maxX) = u at hins
  have hmode' : u.mode = .insert := by rw [← hu]
  have hindex : u.index = y * maxY + x := by rw [← hu]; rfl
  obtain ⟨buf, hbuf⟩ : ∃ buf, u.store 97 = some buf := ⟨_, if_pos (by rw [hindex]; exact hi)⟩
  obtain ⟨_, hget⟩ := store_eq_some hbuf
  have htype := next_printable draw hmode' (show Printable 'a'.toNat by decide)
  rw [show UInt8.ofNat 'a'.toNat = 97 from rfl, hbuf, Option.bind_some] at htype
  refine ⟨_, (hins.trans (.of_next htype)).trans (.of_next (next_esc draw hmode')), rfl,
    fun i => ?_⟩
  show buf.bytes[i]? = _
  rw [hget, hindex, ← hu]
  rfl

/-- All cells can be stored to: a NUL that is left was there and belongs to none of them. -/
theorem leads_cover (hcorner : ∀ (y : Fin maxY) (x : Fin maxX), y * maxY + x < BUF_SIZE)
    (hmode : s.mode = .command) (cells : List (Fin maxY × Fin maxX)) :
    ∃ t, Leads (next draw) s t ∧ t.mode = .command ∧
      ∀ i, t.readBuf.bytes[i]? = some 0 →
        s.readBuf.bytes[i]? = some 0 ∧ ∀ c ∈ cells, c.1 * maxY + c.2 ≠ i := by
  induction cells generalizing s with
  | nil => exact ⟨s, .refl s, hmode, fun i hi => ⟨hi, by simp⟩⟩
  | cons c cells ih =>
    obtain ⟨t, hst, hmt, hget⟩ := leads_store draw hmode (hcorner c.1 c.2)
    obtain ⟨u, htu, hmu, hnul⟩ := ih hmt
    refine ⟨u, hst.trans htu, hmu, fun i hi => ?_⟩
    obtain ⟨hti, hcells⟩ := hnul i hi
    rw [hget] at hti
    split at hti
    · cases hti
    · rename_i hne
      exact ⟨hti, List.forall_mem_cons.mpr ⟨Ne.symm hne, hcells⟩⟩

/-! ### Whole runs -/

variable {draw}

/-- What `main` accesses before its loop. -/
theorem startAccesses_lt_iff (buf : CharArray BUF_SIZE) (file : List UInt8) :
    (∀ i ∈ startAccesses buf file, i < BUF_SIZE) ↔ 0 ∈ (loaded buf file).bytes := by
  rw [startAccesses, List.forall_mem_append, scanned_lt_iff (loaded buf file).length_eq]
  refine and_iff_right fun i hi => ?_
  exact lt_of_lt_of_le (List.mem_range.mp hi) (List.length_take_le ..)

theorem nul_mem_loaded_iff (buf : CharArray BUF_SIZE) (file : List UInt8) :
    0 ∈ (loaded buf file).bytes ↔
      0 ∈ file.take BUF_SIZE ∨ 0 ∈ buf.bytes.drop file.length := by
  rw [loaded, buf.bytes_recv (List.length_take_le ..), List.mem_append]
  refine or_congr_right ?_
  by_cases hlen : file.length ≤ BUF_SIZE
  · rw [List.take_of_length_le hlen]
  · -- nothing is left behind a full buffer
    have hle : BUF_SIZE ≤ file.length := by omega
    rw [List.length_take_of_le hle, List.drop_of_length_le (Nat.le_of_eq buf.length_eq),
      List.drop_of_length_le (by rw [buf.length_eq]; exact hle)]

/-- Where no keys leave the buffer, no key does in any state they lead to. -/
theorem inside_of_leads {buf : CharArray BUF_SIZE} {file : List UInt8}
    (h : ∀ keys, InBuffer screen draw buf file keys) (hs : start screen buf file = some s)
    (ht : Leads (next draw) s t) (key : Nat) : t.Inside key := by
  obtain ⟨keys, ht⟩ := ht
  exact (accesses_lt_iff t key).mp (((h (keys ++ [key])).2 s hs).of_append ht).1

/-- One run stays inside exactly when the start finds a terminator and each key is handled inside. -/
theorem inBuffer_run_iff {buf : CharArray BUF_SIZE} {file : List UInt8} {keys : List Nat} :
    InBuffer screen draw buf file keys ↔
      0 ∈ (loaded buf file).bytes ∧
        ∀ s, start screen buf file = some s → Along (next draw) Inside s keys := by
  rw [InBuffer, startAccesses_lt_iff]
  simp only [accesses_lt_iff]

/-- **Inside the buffer.**  A run stays inside exactly when a NUL stands among the bytes read or was
    left behind them, each key stored at a cell that has a byte, and each save found a NUL.  All runs
    of a file on a terminal do so exactly when the last cell has a byte, and some NUL after the start
    belongs to no cell. -/
theorem inBuffer_iff (screen : Str → Window maxY maxX)
    (draw : Nat → Window maxY maxX → Window maxY maxX) (buf : CharArray BUF_SIZE)
    (file : List UInt8) :
    (∀ keys, InBuffer screen draw buf file keys ↔
      (0 ∈ file.take BUF_SIZE ∨ 0 ∈ buf.bytes.drop file.length) ∧
        ∀ s, start screen buf file = some s → Along (next draw) Inside s keys) ∧
    ((∀ keys, InBuffer screen draw buf file keys) ↔
      (maxY - 1) * maxY + (maxX - 1) < BUF_SIZE ∧
        ∃ i, (loaded buf file).bytes[i]? = some 0 ∧
          ∀ (y : Fin maxY) (x : Fin maxX), y * maxY + x ≠ i) := by
  refine ⟨fun keys => by rw [inBuffer_run_iff, nul_mem_loaded_iff], ?_⟩
  rw [← corner_lt_iff (screen [])]
  constructor
  · intro h
    obtain ⟨s, hs⟩ : ∃ s, start screen buf file = some s :=
      ⟨_, start_eq_some_iff.mpr ⟨(inBuffer_run_iff.mp (h [])).1, rfl⟩⟩
    have hstart := (start_eq_some_iff.mp hs).2
    have hmode : s.mode = .command := by rw [hstart]
    -- the insert mode at any cell, and a save when all cells are stored to
    have hcorner : ∀ (y : Fin maxY) (x : Fin maxX), y * maxY + x < BUF_SIZE := fun y x =>
      (inside_of_leads h hs (leads_insert draw hmode y x) 'a'.toNat).1 rfl (by decide)
    refine ⟨hcorner, ?_⟩
    obtain ⟨t, hst, hmt, hnul⟩ := leads_cover draw hcorner hmode
      (List.finRange maxY ×ˢ List.finRange maxX)
    have h0 := (inside_of_leads h hs hst 's'.toNat).2 hmt rfl
    obtain ⟨i, hi⟩ := List.mem_iff_getElem?.mp h0
    obtain ⟨hsi, hcells⟩ := hnul i hi
    refine ⟨i, by rw [hstart] at hsi; exact hsi, fun y x => ?_⟩
    exact hcells (y, x) (List.mem_product.mpr ⟨List.mem_finRange y, List.mem_finRange x⟩)
  · rintro ⟨hcorner, i, hi, hcells⟩ keys
    rw [inBuffer_run_iff]
    refine ⟨List.mem_of_getElem? hi, fun s hs => ?_⟩
    refine along_inside hcorner hcells ?_ keys
    rw [(start_eq_some_iff.mp hs).2]
    exact hi

/-- A file of 2400 letters leaves no terminator for `printw`. -/
theorem not_inBuffer :
    ¬ ∀ (maxY maxX : Nat) (screen : Str → Window maxY maxX)
      (draw : Nat → Window maxY maxX → Window maxY maxX) (buf : CharArray BUF_SIZE)
      (file : List UInt8) (keys : List Nat), InBuffer screen draw buf file keys := by
  intro h
  let zeros : CharArray BUF_SIZE := ⟨List.replicate BUF_SIZE 0, List.length_replicate⟩
  have hstart := (h 24 80 (fun _ => ⟨fun _ _ => blank, 0, 0⟩) (fun _ w => w) zeros
    (List.replicate BUF_SIZE 97) []).1
  rw [startAccesses_lt_iff, nul_mem_loaded_iff, List.take_of_length_le (by simp),
    List.drop_of_length_le (by simp [zeros])] at hstart
  rcases hstart with h0 | h0
  · exact absurd (List.eq_of_mem_replicate h0) (by decide)
  · cases h0

end Editor

end EltexHomeworks.TextEditor
