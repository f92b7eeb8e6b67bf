import EltexHomeworks.Lib.Overwrite
import EltexHomeworks.TextEditor.OpenSave

namespace EltexHomeworks.TextEditor

open EltexHomeworks.Lib

/-!
# Text editor — the file over a session

`SafeFile` writes the string in `read_buf` at the beginning of the file, which it does not shorten.
`saves` are the texts that the keys of a session save, in their order.

* `session_file` — what a session makes of the file;
* `reopened_iff` — when the next session reads the text that the last one saved.
-/

variable {maxY maxX : Nat} {s t : Editor maxY maxX} {screen : Str → Window maxY maxX}
  {draw : Nat → Window maxY maxX → Window maxY maxX}

namespace Editor

/-- The text the key saves, if it is an `s` in command mode. -/
def saved (s : Editor maxY maxX) (key : Nat) : List Str :=
  if s.mode = .command ∧ key = 's'.toNat then [text s.readBuf.bytes] else []

/-- The texts the keys save, one after the other. -/
def saves (draw : Nat → Window maxY maxX → Window maxY maxX) :
    Editor maxY maxX → List Nat → List Str
  | _, [] => []
  | s, key :: keys => s.saved key ++ ((s.next draw key).elim [] fun t => saves draw t keys)

/-! ### One key -/

/-- The key `s` in command mode. -/
theorem command_save (s : Editor maxY maxX) :
    s.command 's'.toNat = s.safeFile.bind fun file => some { s with file := file } := by
  rw [command, if_neg (by decide), if_neg (by decide), if_neg (by decide), if_neg (by decide),
    if_neg (by decide), if_neg (by decide), if_pos rfl]
  rfl

/-- In command mode only `s` writes the file. -/
theorem command_file {key : Nat} (h : s.command key = some t) (hkey : key ≠ 's'.toNat) :
    t.file = s.file := by
  unfold command at h
  repeat' split at h
  all_goals first
    | exact absurd ‹key = 's'.toNat› hkey
    | (cases h; rfl)

/-- The insert mode does not. -/
theorem writeInWin_file {key : Nat} (h : s.writeInWin draw key = some t) : t.file = s.file := by
  unfold writeInWin at h
  split at h
  · cases h
    rfl
  · repeat' split at h
    all_goals
      obtain ⟨buf, -, h⟩ := Option.bind_eq_some_iff.mp h
      cases h
      rfl

/-- The help does not. -/
theorem callHelp_file (s : Editor maxY maxX) (key : Nat) : (s.callHelp key).file = s.file := by
  unfold callHelp
  split <;> rfl

/-- **One key** writes the text it saves. -/
theorem next_file {key : Nat} (h : s.next draw key = some t) :
    t.file = overwrites s.file (s.saved key) ∧
      ∀ str ∈ s.saved key, str.length < BUF_SIZE := by
  -- only `s` in the command mode saves
  by_cases hsave : s.mode = .command ∧ key = 's'.toNat
  · obtain ⟨hmode, rfl⟩ := hsave
    rw [next_command draw hmode, command_save] at h
    obtain ⟨file, hfile, h⟩ := Option.bind_eq_some_iff.mp h
    -- `strlen` finds a NUL, and before it there is the text
    obtain ⟨h0, hfile⟩ := Option.ite_none_right_eq_some.mp hfile
    cases h
    cases hfile
    rw [saved, if_pos ⟨hmode, rfl⟩]
    refine ⟨rfl, fun str hstr => ?_⟩
    rw [List.mem_singleton.mp hstr]
    exact Nat.lt_of_lt_of_eq (length_text_lt h0) s.readBuf.length_eq
  · rw [saved, if_neg hsave]
    refine ⟨?_, fun str hstr => absurd hstr List.not_mem_nil⟩
    rw [overwrites_nil]
    -- any other key leaves the file as it is
    unfold next at h
    cases hmode : s.mode with
    | command =>
      rw [hmode] at h
      exact command_file h fun hkey => hsave ⟨hmode, hkey⟩
    | insert =>
      rw [hmode] at h
      exact writeInWin_file h
    | help =>
      rw [hmode] at h
      cases h
      exact callHelp_file s key
    | closed =>
      rw [hmode] at h
      cases h

/-! ### Sessions -/

theorem saves_cons {u : Editor maxY maxX} {key : Nat} {keys : List Nat}
    (h : s.next draw key = some u) :
    saves draw s (key :: keys) = s.saved key ++ saves draw u keys := by
  rw [saves, h]
  rfl

/-- **A run of keys** writes the texts it saves, one after the other. -/
theorem run_file {keys : List Nat} (h : run (next draw) s keys = some t) :
    t.file = overwrites s.file (saves draw s keys) ∧
      ∀ str ∈ saves draw s keys, str.length < BUF_SIZE := by
  induction keys generalizing s with
  | nil =>
    cases h
    exact ⟨rfl, fun str hstr => absurd hstr List.not_mem_nil⟩
  | cons key keys ih =>
    obtain ⟨u, hu, h⟩ := run_cons_eq_some.mp h
    obtain ⟨hfile, hlen⟩ := next_file hu
    obtain ⟨hfile', hlen'⟩ := ih h
    rw [saves_cons hu]
    refine ⟨?_, fun str hstr => ?_⟩
    · rw [hfile', hfile, overwrites_append]
    · exact (List.mem_append.mp hstr).elim (hlen str) (hlen' str)

/-- **The file over a session.**  Whatever the keys are, each byte of the file is in the end that of
    the last text saved that was long enough to have one there, and that of the file opened where
    none was; so the file does not become shorter, and nothing behind its first 2399 bytes
    changes. -/
theorem session_file {buf : CharArray BUF_SIZE} {file : List UInt8} {keys : List Nat}
    (hstart : start screen buf file = some s) (hrun : run (next draw) s keys = some t) :
    (∀ i : Nat, t.file[i]? =
        (((saves draw s keys).reverse.find? fun str => i < str.length).getD file)[i]?) ∧
      file.length ≤ t.file.length ∧ t.file.drop (BUF_SIZE - 1) = file.drop (BUF_SIZE - 1) := by
  obtain ⟨hfile, hlen⟩ := run_file hrun
  have hopened : s.file = file := by
    obtain ⟨-, rfl⟩ := start_eq_some_iff.mp hstart
    rfl
  rw [hopened] at hfile
  rw [hfile]
  exact ⟨getElem?_overwrites file _, length_le_overwrites file _,
    drop_overwrites fun str hstr => Nat.le_pred_of_lt (hlen str hstr)⟩

/-- A stack of NULs. -/
def nuls : CharArray BUF_SIZE := ⟨List.replicate BUF_SIZE 0, List.length_replicate⟩

/-- `a` and a NUL are typed over the file `xxx`, and saved: the two other letters are still in
    it. -/
theorem session_file_short : ∃ s t : Editor 24 80, ∃ keys, saves (fun _ w => w) s keys = [[97]] ∧
    run (next fun _ w => w) s keys = some t ∧ t.file[1]? = some 120 := by
  let screen : Str → Window 24 80 := fun _ => ⟨fun _ _ => blank, 0, 0⟩
  let keys : List Nat := ['i'.toNat, 'a'.toNat, 0, ESC, 's'.toNat]
  obtain ⟨s, hs⟩ : ∃ s, start screen nuls [120, 120, 120] = some s := ⟨_, rfl⟩
  obtain ⟨⟨t, ht⟩, hsaves⟩ : (∃ t, run (next fun _ w => w) s keys = some t) ∧
      saves (fun _ w => w) s keys = [[97]] := by
    cases hs
    exact ⟨⟨_, rfl⟩, rfl⟩
  have hfile := (session_file hs ht).1 1
  rw [hsaves] at hfile
  exact ⟨s, t, keys, hsaves, ht, hfile⟩

/-! ### The next session -/

/-- A block that begins with a text reads as that text exactly when a NUL follows. -/
theorem text_eq_iff {str rest : List UInt8} (h : 0 ∉ str) :
    0 ∈ str ++ rest ∧ text (str ++ rest) = str ↔ (str ++ rest)[str.length]? = some 0 := by
  rw [text_append_of_not_mem h, List.append_right_eq_self, text_eq_nil_iff, List.mem_append,
    or_iff_right h, List.getElem?_append_right (Nat.le_refl _), Nat.sub_self]
  cases rest with
  | nil => simp
  | cons c rest => simp +contextual [eq_comm]

/-- What is read of a file that begins with a text, over `buf`: the text, and the byte of the file
    that follows or, at its end, the one of `buf`. -/
theorem recv_overwrite (buf : CharArray BUF_SIZE) (file : List UInt8) {str : List UInt8}
    (hlen : str.length < BUF_SIZE) :
    ∃ rest, (buf.recv ((overwrite file str).take BUF_SIZE)).bytes = str ++ rest ∧
      (str ++ rest)[str.length]? =
        if str.length < file.length then file[str.length]? else buf.bytes[str.length]? := by
  have hread : ((overwrite file str).take BUF_SIZE).length =
      min BUF_SIZE (max str.length file.length) := by
    rw [List.length_take, length_overwrite]
  have htake : (overwrite file str).take BUF_SIZE =
      str ++ (file.drop str.length).take (BUF_SIZE - str.length) := by
    rw [overwrite, List.take_append, List.take_of_length_le (Nat.le_of_lt hlen)]
  have hbytes := buf.bytes_recv (d := (overwrite file str).take BUF_SIZE) (List.length_take_le ..)
  refine ⟨_, by rw [hbytes, htake, List.append_assoc], ?_⟩
  rw [← List.append_assoc, ← htake]
  by_cases hfile : str.length < file.length
  · rw [if_pos hfile, List.getElem?_append_left (by omega), List.getElem?_take_of_lt hlen,
      getElem?_overwrite, if_neg (Nat.lt_irrefl _)]
  · rw [if_neg hfile, List.getElem?_append_right (by omega), List.getElem?_drop,
      Nat.add_sub_cancel' (by omega)]

/-- The last save of a session. -/
theorem text_saved {u : Editor maxY maxX} (hmode : s.mode = .command)
    (h : s.next draw 's'.toNat = some u) :
    u.readBuf = s.readBuf ∧ u.file = overwrite s.file (text s.readBuf.bytes) := by
  rw [next_command draw hmode, command_save] at h
  obtain ⟨file, hfile, h⟩ := Option.bind_eq_some_iff.mp h
  obtain ⟨-, hfile⟩ := Option.ite_none_right_eq_some.mp hfile
  cases h
  cases hfile
  exact ⟨rfl, rfl⟩

theorem nul_not_mem_saves (s : Editor maxY maxX) (keys : List Nat) :
    ∀ str ∈ saves draw s keys, 0 ∉ str := by
  induction keys generalizing s with
  | nil => exact fun str hstr => absurd hstr List.not_mem_nil
  | cons key keys ih =>
    intro str hstr
    rcases List.mem_append.mp hstr with hstr | hstr
    · rw [saved] at hstr
      split at hstr
      · rw [List.mem_singleton.mp hstr]
        exact nul_not_mem_text _
      · cases hstr
    · cases hu : s.next draw key with
      | none => rw [hu] at hstr; cases hstr
      | some u =>
        rw [hu] at hstr
        exact ih u str hstr

/-- **The text in the next session.**  After a session that ends with a save, the next one begins
    with the text that was saved if and only if the text saved was never longer in that session, and
    either the file opened in it had a NUL right behind that text, or it was not longer either and
    the next `read_buf` happens to have a NUL there. -/
theorem reopened_iff {u : Editor maxY maxX} {buf buf' : CharArray BUF_SIZE} {file : List UInt8}
    {keys : List Nat} (hstart : start screen buf file = some s)
    (hrun : run (next draw) s keys = some t) (hmode : t.mode = .command)
    (hsave : t.next draw 's'.toNat = some u) :
    (∃ s', start screen buf' u.file = some s' ∧
        text s'.readBuf.bytes = text u.readBuf.bytes) ↔
      (∀ str ∈ saves draw s keys, str.length ≤ (text u.readBuf.bytes).length) ∧
        (file[(text u.readBuf.bytes).length]? = some 0 ∨
          file.length ≤ (text u.readBuf.bytes).length ∧
            buf'.bytes[(text u.readBuf.bytes).length]? = some 0) := by
  obtain ⟨hbuf, hfile⟩ := text_saved hmode hsave
  obtain ⟨hold, -⟩ := run_file hrun
  obtain ⟨-, hlen⟩ := next_file hsave
  have hlen := hlen _ (by rw [saved, if_pos ⟨hmode, rfl⟩]; exact List.mem_singleton_self _)
  have hopened : s.file = file := by
    obtain ⟨-, rfl⟩ := start_eq_some_iff.mp hstart
    rfl
  rw [hopened] at hold
  rw [hfile, hbuf, hold]
  generalize hstr : text t.readBuf.bytes = str at hlen ⊢
  have h0 : 0 ∉ str := hstr ▸ nul_not_mem_text _
  obtain ⟨rest, hrest, hnext⟩ :=
    recv_overwrite buf' (overwrites file (saves draw s keys)) hlen
  -- the start of the next session is about the byte behind the text
  have hbegin : (∃ s', start screen buf' (overwrite (overwrites file (saves draw s keys)) str) =
      some s' ∧ text s'.readBuf.bytes = str) ↔ (str ++ rest)[str.length]? = some 0 := by
    rw [← text_eq_iff h0, ← hrest]
    constructor
    · rintro ⟨s', hs', htext⟩
      obtain ⟨hnul, rfl⟩ := start_eq_some_iff.mp hs'
      exact ⟨hnul, htext⟩
    · rintro ⟨hnul, htext⟩
      exact ⟨_, start_eq_some_iff.mpr ⟨hnul, rfl⟩, htext⟩
  rw [hbegin, hnext]
  by_cases hlt : str.length < (overwrites file (saves draw s keys)).length
  · -- the file is longer: what stands behind the text is in the file
    rw [if_pos hlt, getElem?_overwrites_eq_some_iff (nul_not_mem_saves s keys)]
    refine and_congr_right fun hall => (or_iff_left fun hend => ?_).symm
    exact Nat.not_lt.mpr (length_overwrites_le_iff.mpr ⟨hall, hend.1⟩) hlt
  · -- the file ends with the text: what stands behind it is in the new `read_buf`
    obtain ⟨hall, hend⟩ := length_overwrites_le_iff.mp (Nat.not_lt.mp hlt)
    rw [if_neg hlt, and_iff_right hall, List.getElem?_eq_none hend, and_iff_right hend]
    simp

/-- `ab` is typed into an empty file and saved: the next session begins with it. -/
theorem reopened_ab : ∃ u s' : Editor 24 80, text u.readBuf.bytes = [97, 98] ∧
    start (fun _ => ⟨fun _ _ => blank, 0, 0⟩) nuls u.file = some s' ∧
    text s'.readBuf.bytes = [97, 98] := by
  let screen : Str → Window 24 80 := fun _ => ⟨fun _ _ => blank, 0, 0⟩
  let keys : List Nat := ['i'.toNat, 'a'.toNat, 'b'.toNat, ESC]
  obtain ⟨s, hs⟩ : ∃ s, start screen nuls [] = some s := ⟨_, rfl⟩
  obtain ⟨t, ht, hmode, htext⟩ : ∃ t, run (next fun _ w => w) s keys = some t ∧
      t.mode = .command ∧ text t.readBuf.bytes = [97, 98] := by
    cases hs
    exact ⟨_, rfl, rfl, rfl⟩
  have h0 : 0 ∈ t.readBuf.bytes := by
    by_contra hno
    have hlen := t.readBuf.length_eq
    rw [← text_of_not_mem hno, htext] at hlen
    exact absurd hlen (by decide)
  obtain ⟨u, hu⟩ : ∃ u, t.next (fun _ w => w) 's'.toNat = some u := ⟨_, next_save hmode h0⟩
  have hbuf := (text_saved hmode hu).1
  have hsaves : saves (fun _ w => w) s keys = [] := by
    cases hs
    rfl
  have hreopened : (∃ s', start screen nuls u.file = some s' ∧
      text s'.readBuf.bytes = text u.readBuf.bytes) ↔ _ := reopened_iff hs ht hmode hu
  rw [hsaves, hbuf, htext] at hreopened
  obtain ⟨s', hs', htext'⟩ := hreopened.mpr
    ⟨fun str hstr => absurd hstr List.not_mem_nil, .inr ⟨by decide, rfl⟩⟩
  exact ⟨u, s', by rw [hbuf, htext], hs', htext'⟩

end Editor

end EltexHomeworks.TextEditor
