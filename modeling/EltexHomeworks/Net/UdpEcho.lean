import EltexHomeworks.Lib.Run
import EltexHomeworks.Lib.Socket

namespace EltexHomeworks.UdpEcho

open EltexHomeworks.Lib

/-!
# UDP echo — the server

The server keeps one buffer for all clients.  `recvfrom` overwrites its first bytes and writes no
terminator, so the string that `strncat` extends is the datagram up to its first NUL or, without
one, the datagram and what older messages left behind it.

* `fits_iff` — the runs in which no `strncat` leaves the buffer;
* `replies_iff` — the runs in which every reply is the text of its datagram and `serv_str`.

Both say so by a condition on each datagram and the buffer it is received in.
-/

/-- The size of `buf`. -/
def BUF_SIZE : Nat := 500

/-- `serv_str`: `server booo`. -/
def servStr : Str := [115, 101, 114, 118, 101, 114, 32, 98, 111, 111, 111]

/-- `len`; `sizeof(serv_str)` counts its NUL. -/
def len : Nat := BUF_SIZE - 1 - (servStr.length + 1)

/-- The result of `recvfrom`. -/
inductive RecvFrom (Addr : Type)
  | failed
  | datagram (d : Datagram BUF_SIZE) (peer : Addr)

/-- The server between two turns of its loop: its buffer, and the replies sent so far, each with
    the address it went to. -/
structure Server (Addr : Type) where
  buf : CharArray BUF_SIZE
  replies : List (Addr × CharArray BUF_SIZE)

variable {Addr : Type}

/-- The transformation of the message; `none` when `strncat` leaves the buffer. -/
def transform (buf : CharArray BUF_SIZE) : Option (CharArray BUF_SIZE) :=
  if len = 0 then some buf else buf.strncat servStr len

/-- One turn of the loop.  A `sendto` that fails ends the program; such a run stops here. -/
def turn (s : Server Addr) : RecvFrom Addr → Option (Server Addr)
  | .failed => some s
  | .datagram d peer => do
    let buf ← transform (s.buf.recv d.1)
    return { buf := buf, replies := s.replies ++ [(peer, buf)] }

/-- The server before its loop, with `buf` as it lies on the stack. -/
def start (buf : CharArray BUF_SIZE) : Server Addr := ⟨buf, []⟩

theorem turn_datagram_eq_some {s t : Server Addr} {d : Datagram BUF_SIZE} {peer : Addr} :
    turn s (.datagram d peer) = some t ↔
      ∃ buf, (s.buf.recv d.1).strncat servStr len = some buf ∧
        t = ⟨buf, s.replies ++ [(peer, buf)]⟩ := by
  show (transform _).bind _ = some t ↔ _
  rw [Option.bind_eq_some_iff, transform, if_neg (by decide)]
  exact exists_congr fun buf => and_congr_right fun _ => ⟨fun h => (Option.some.inj h).symm,
    fun h => congrArg some h.symm⟩

/-- All of `serv_str` is appended. -/
theorem servStr_take_len : servStr.take len = servStr := by decide

theorem nul_not_mem_servStr : 0 ∉ servStr := by decide

/-! ### Staying in the buffer -/

/-- The datagram has a NUL among its first 489 bytes, or `buf` has one from the end of the datagram
    up to there: with `serv_str` and a NUL behind it that string is not longer than `buf`. -/
def HasRoom (s : Server Addr) : RecvFrom Addr → Prop
  | .failed => True
  | .datagram d _ => 0 ∈ d.1.take (BUF_SIZE - servStr.length) ∨
      0 ∈ (s.buf.bytes.take (BUF_SIZE - servStr.length)).drop d.1.length

/-- One turn stays in the buffer exactly when there is room. -/
theorem isSome_turn_iff (s : Server Addr) (r : RecvFrom Addr) :
    (turn s r).isSome ↔ HasRoom s r := by
  cases r with
  | failed => exact ⟨fun _ => trivial, fun _ => rfl⟩
  | datagram d peer =>
    have hsome : (turn s (.datagram d peer)).isSome ↔
        ((s.buf.recv d.1).strncat servStr len).isSome := by
      rw [Option.isSome_iff_exists, Option.isSome_iff_exists]
      constructor
      · rintro ⟨t, ht⟩
        obtain ⟨buf, hbuf, _⟩ := turn_datagram_eq_some.mp ht
        exact ⟨buf, hbuf⟩
      · rintro ⟨buf, hbuf⟩
        exact ⟨_, turn_datagram_eq_some.mpr ⟨buf, hbuf, rfl⟩⟩
    have hroom : (text (s.buf.recv d.1).bytes).length + servStr.length < BUF_SIZE ↔
        (text (s.buf.recv d.1).bytes).length ≤ 488 := by
      have hserv : servStr.length = 11 := rfl
      have hsize : BUF_SIZE = 500 := rfl
      omega
    rw [hsome, CharArray.isSome_strncat_iff, servStr_take_len, hroom, ← nul_mem_take_succ_iff,
      s.buf.bytes_recv d.2, List.take_append, List.mem_append, HasRoom, List.drop_take]
    exact Iff.rfl

/-- A turn leaves a terminated string if it was given one. -/
theorem nul_mem_turn {s t : Server Addr} {r : RecvFrom Addr} (hs : 0 ∈ s.buf.bytes)
    (h : turn s r = some t) : 0 ∈ t.buf.bytes := by
  cases r with
  | failed => cases h; exact hs
  | datagram d peer =>
    obtain ⟨buf, hbuf, rfl⟩ := turn_datagram_eq_some.mp h
    exact CharArray.nul_mem_strncat hbuf

/-- **The string stays in `buf`**, over a whole run, if and only if each datagram has room in the
    buffer it is received in. -/
theorem fits_iff (buf : CharArray BUF_SIZE) (hbuf : 0 ∈ buf.bytes) (rs : List (RecvFrom Addr)) :
    (∃ s, run turn (start buf) rs = some s ∧ 0 ∈ s.buf.bytes) ↔
      Along turn HasRoom (start buf) rs := by
  -- a run that goes through has kept the terminator
  have hkeep : (∃ s, run turn (start buf) rs = some s ∧ 0 ∈ s.buf.bytes) ↔
      (run turn (start buf : Server Addr) rs).isSome := by
    rw [Option.isSome_iff_exists]
    exact exists_congr fun s => and_iff_left_of_imp
      (run_keeps (I := fun s : Server Addr => 0 ∈ s.buf.bytes)
        (fun _ _ _ hs h => nul_mem_turn hs h) hbuf)
  rw [hkeep, isSome_run_iff]
  exact along_congr (I := fun _ => True) (fun _ _ _ _ _ _ _ => trivial)
    (fun s r _ _ => isSome_turn_iff s r) trivial (along_of_forall (fun _ _ => trivial) _ rs)

/-- A buffer of NULs. -/
def zeros : CharArray BUF_SIZE := ⟨List.replicate BUF_SIZE 0, List.length_replicate⟩

/-- `Hi Ilya`, as the client of the repository sends it: without its NUL. -/
def hiIlya : Datagram BUF_SIZE := ⟨[72, 105, 32, 73, 108, 121, 97], by decide⟩

theorem nul_mem_zeros : 0 ∈ zeros.bytes := List.mem_replicate.mpr ⟨by decide, rfl⟩

theorem fits_hiIlya :
    ∃ s, run turn (start zeros) [.datagram hiIlya ()] = some s ∧ 0 ∈ s.buf.bytes := by
  refine (fits_iff zeros nul_mem_zeros [.datagram hiIlya ()]).mpr ⟨Or.inr ?_, fun _ _ => trivial⟩
  show 0 ∈ ((List.replicate BUF_SIZE (0 : UInt8)).take 489).drop 7
  rw [List.take_replicate, List.drop_replicate]
  exact List.mem_replicate.mpr ⟨by decide, rfl⟩

/-- A datagram of `BUF_SIZE` bytes `A`. -/
def full : Datagram BUF_SIZE := ⟨List.replicate BUF_SIZE 65, Nat.le_of_eq List.length_replicate⟩

/-- A datagram of 500 bytes `A` leaves no terminator in the buffer. -/
theorem not_fits :
    ¬ ∀ (buf : CharArray BUF_SIZE) (rs : List (RecvFrom Unit)), 0 ∈ buf.bytes →
      ∃ s, run turn (start buf) rs = some s ∧ 0 ∈ s.buf.bytes := by
  intro h
  obtain ⟨s, hs, _⟩ := h zeros [.datagram full ()] nul_mem_zeros
  obtain ⟨t, ht, _⟩ := run_cons_eq_some.mp hs
  have hroom : HasRoom (start zeros) (.datagram full ()) := by
    rw [← isSome_turn_iff, ht]
    rfl
  rcases hroom with hfull | hzeros
  · exact absurd (List.eq_of_mem_replicate (List.mem_of_mem_take hfull)) (by decide)
  · -- the datagram is as long as the buffer, so nothing is left behind it
    rw [List.drop_of_length_le] at hzeros
    · exact absurd hzeros List.not_mem_nil
    · rw [List.length_take, full, List.length_replicate]
      exact (Nat.min_le_left _ _).trans (by decide)

/-! ### Replies -/

/-- The replies of an echo server: to the sender of each datagram, its text and `serv_str`. -/
def answers : List (RecvFrom Addr) → List (Addr × Str)
  | [] => []
  | .failed :: rs => answers rs
  | .datagram d peer :: rs => (peer, text d.1 ++ servStr) :: answers rs

/-- The replies sent, as their addresses and texts. -/
def Server.texts (s : Server Addr) : List (Addr × Str) :=
  s.replies.map fun r => (r.1, text r.2.bytes)

/-- The text of the datagram leaves room for `serv_str`. -/
def Short : RecvFrom Addr → Prop
  | .failed => True
  | .datagram d _ => (text d.1).length ≤ BUF_SIZE - 1 - servStr.length

/-- The datagram has a NUL in it, or there is one in `buf` right behind it. -/
def Terminated (s : Server Addr) : RecvFrom Addr → Prop
  | .failed => True
  | .datagram d _ => 0 ∈ d.1 ∨ s.buf.bytes[d.1.length]? = some 0

/-- The string `recvfrom` leaves in the buffer is the text of the datagram exactly when that is
    terminated there. -/
theorem text_recv_eq_iff {s : Server Addr} {d : Datagram BUF_SIZE} {peer : Addr}
    (h : Short (.datagram d peer)) :
    text (s.buf.recv d.1).bytes = text d.1 ↔ Terminated s (.datagram d peer) := by
  rw [s.buf.bytes_recv d.2, Terminated]
  by_cases hd : 0 ∈ d.1
  · exact ⟨fun _ => Or.inl hd, fun _ => text_append_of_mem hd _⟩
  · -- without a NUL the datagram is short, and the buffer goes on behind it
    have hlen : d.1.length < s.buf.bytes.length := by
      have hshort : (text d.1).length ≤ BUF_SIZE - 1 - servStr.length := h
      rw [text_of_not_mem hd] at hshort
      have hsize : BUF_SIZE = 500 := rfl
      rw [s.buf.length_eq]
      omega
    rw [text_append_of_not_mem hd, text_of_not_mem hd, List.append_right_eq_self, text_eq_nil_iff,
      List.head?_drop, List.getElem?_eq_getElem hlen]
    simp [hd]

/-- A datagram that is short and terminated has room. -/
theorem Terminated.hasRoom {s : Server Addr} {r : RecvFrom Addr} (h : Terminated s r)
    (hr : Short r) : HasRoom s r := by
  cases r with
  | failed => trivial
  | datagram d peer =>
    have hshort : (text d.1).length ≤ 488 := hr
    rcases h with hd | hbuf
    · exact Or.inl (nul_mem_take_succ_iff.mpr ⟨hd, hshort⟩)
    · by_cases hd : 0 ∈ d.1
      · exact Or.inl (nul_mem_take_succ_iff.mpr ⟨hd, hshort⟩)
      · rw [text_of_not_mem hd] at hshort
        refine Or.inr (List.mem_of_getElem? (i := 0) ?_)
        rw [List.getElem?_drop, Nat.add_zero, List.getElem?_take_of_lt]
        · exact hbuf
        · show d.1.length < 489
          omega

/-- **One turn replies well** exactly when the datagram is terminated in the buffer. -/
theorem turn_texts_iff {s : Server Addr} {r : RecvFrom Addr} (hr : Short r) :
    (∃ t, turn s r = some t ∧ t.texts = s.texts ++ answers [r]) ↔ Terminated s r := by
  cases r with
  | failed =>
    refine ⟨fun _ => trivial, fun _ => ⟨s, rfl, ?_⟩⟩
    rw [answers, answers, List.append_nil]
  | datagram d peer =>
    have htexts : ∀ (t : Server Addr) buf, (s.buf.recv d.1).strncat servStr len = some buf →
        t = ⟨buf, s.replies ++ [(peer, buf)]⟩ →
        (t.texts = s.texts ++ answers [.datagram d peer] ↔ Terminated s (.datagram d peer)) := by
      rintro t buf hbuf rfl
      have htext := CharArray.text_strncat nul_not_mem_servStr hbuf
      rw [servStr_take_len] at htext
      rw [← text_recv_eq_iff hr, Server.texts, List.map_append, Server.texts, answers, answers,
        List.append_cancel_left_eq, List.map_singleton, htext, List.cons.injEq, Prod.mk.injEq,
        List.append_cancel_right_eq]
      simp
    constructor
    · rintro ⟨t, ht, h⟩
      obtain ⟨buf, hbuf, hst⟩ := turn_datagram_eq_some.mp ht
      exact (htexts t buf hbuf hst).mp h
    · intro h
      obtain ⟨t, ht⟩ := Option.isSome_iff_exists.mp ((isSome_turn_iff _ _).mpr (h.hasRoom hr))
      obtain ⟨buf, hbuf, hst⟩ := turn_datagram_eq_some.mp ht
      exact ⟨t, ht, (htexts t buf hbuf hst).mpr h⟩

/-- A turn sends one reply for each datagram, and keeps those sent before. -/
theorem turn_texts {s t : Server Addr} {r : RecvFrom Addr} (h : turn s r = some t) :
    ∃ more, t.texts = s.texts ++ more ∧ more.length = (answers [r]).length := by
  cases r with
  | failed => cases h; exact ⟨[], (List.append_nil _).symm, rfl⟩
  | datagram d peer =>
    obtain ⟨buf, _, rfl⟩ := turn_datagram_eq_some.mp h
    exact ⟨[(peer, text buf.bytes)], List.map_append, rfl⟩

theorem run_texts {s t : Server Addr} {rs : List (RecvFrom Addr)} (h : run turn s rs = some t) :
    ∃ more, t.texts = s.texts ++ more := by
  induction rs generalizing s with
  | nil => cases h; exact ⟨[], (List.append_nil _).symm⟩
  | cons r rs ih =>
    obtain ⟨u, hu, h⟩ := run_cons_eq_some.mp h
    obtain ⟨x, hx, _⟩ := turn_texts hu
    obtain ⟨y, hy⟩ := ih h
    exact ⟨x ++ y, by rw [hy, hx, List.append_assoc]⟩

theorem answers_cons (r : RecvFrom Addr) (rs : List (RecvFrom Addr)) :
    answers (r :: rs) = answers [r] ++ answers rs := by
  cases r <;> rfl

/-- From any state on, the replies are the answers exactly when every datagram is terminated in
    the buffer it is received in. -/
theorem run_texts_iff (s : Server Addr) (rs : List (RecvFrom Addr)) (hshort : ∀ r ∈ rs, Short r) :
    (∃ t, run turn s rs = some t ∧ t.texts = s.texts ++ answers rs) ↔
      Along turn Terminated s rs := by
  induction rs generalizing s with
  | nil => exact ⟨fun _ => trivial, fun _ => ⟨s, rfl, (List.append_nil _).symm⟩⟩
  | cons r rs ih =>
    rw [List.forall_mem_cons] at hshort
    rw [Along, ← turn_texts_iff hshort.1]
    constructor
    · rintro ⟨t, ht, htexts⟩
      obtain ⟨u, hu, ht⟩ := run_cons_eq_some.mp ht
      obtain ⟨x, hx, hlen⟩ := turn_texts hu
      obtain ⟨y, hy⟩ := run_texts ht
      -- the first reply answers `r`, the others answer `rs`
      rw [hy, hx, List.append_assoc, answers_cons, List.append_cancel_left_eq] at htexts
      obtain ⟨rfl, rfl⟩ := List.append_inj htexts hlen
      refine ⟨⟨u, hu, hx⟩, fun u' hu' => ?_⟩
      rw [hu] at hu'
      cases hu'
      exact (ih u hshort.2).mp ⟨t, ht, hy⟩
    · rintro ⟨⟨u, hu, hx⟩, halong⟩
      obtain ⟨t, ht, hy⟩ := (ih u hshort.2).mpr (halong u hu)
      exact ⟨t, run_cons_eq_some.mpr ⟨u, hu, ht⟩,
        by rw [hy, hx, answers_cons r rs, List.append_assoc]⟩

/-- **Replies depend on their datagrams alone** in a run if and only if each datagram has a NUL in
    it or finds one right behind it in the buffer. -/
theorem replies_iff (buf : CharArray BUF_SIZE) (rs : List (RecvFrom Addr))
    (hshort : ∀ r ∈ rs, Short r) :
    (∃ s, run turn (start buf) rs = some s ∧ s.texts = answers rs) ↔
      Along turn Terminated (start buf) rs :=
  run_texts_iff (start buf) rs hshort

theorem replies_hiIlya :
    ∃ s, run turn (start zeros) [.datagram hiIlya ()] = some s ∧
      s.texts = [((), [72, 105, 32, 73, 108, 121, 97] ++ servStr)] := by
  refine (replies_iff zeros [.datagram hiIlya ()] ?_).mpr ⟨Or.inr ?_, fun _ _ => trivial⟩
  · rw [List.forall_mem_singleton]
    show (text hiIlya.1).length ≤ 488
    decide
  · exact List.getElem?_replicate_of_lt (by decide)

/-- The client of the repository sends `Hi Ilya` again and again; the second reply has the
    `server booo` of the first one in it. -/
theorem not_replies :
    ¬ ∀ (buf : CharArray BUF_SIZE) (rs : List (RecvFrom Unit)), (∀ r ∈ rs, Short r) →
      ∃ s, run turn (start buf) rs = some s ∧ s.texts = answers rs := by
  intro h
  have hshort : ∀ r ∈ [.datagram hiIlya (), .datagram hiIlya ()], Short r := by
    simp only [List.forall_mem_cons, List.not_mem_nil, false_implies, implies_true, and_true,
      and_self]
    show (text hiIlya.1).length ≤ 488
    decide
  have hrun := (run_texts_iff (start zeros) _ hshort).mp (h zeros _ hshort)
  obtain ⟨h₁, hrun⟩ := hrun
  obtain ⟨t, ht, _⟩ := (turn_texts_iff (hshort _ List.mem_cons_self)).mpr h₁
  have h₂ := (hrun t ht).1
  obtain ⟨buf, hbuf, rfl⟩ := turn_datagram_eq_some.mp ht
  -- behind the second datagram stands the `s` of `server booo`
  have htext : text buf.bytes = hiIlya.1 ++ servStr := by
    rw [CharArray.text_strncat nul_not_mem_servStr hbuf, servStr_take_len,
      (text_recv_eq_iff (hshort _ List.mem_cons_self)).mpr h₁]
    decide
  obtain ⟨rest, hrest⟩ := List.takeWhile_prefix (l := buf.bytes) (· != 0)
  have hs : buf.bytes[7]? = some 115 := by
    rw [← hrest]
    show (text buf.bytes ++ rest)[7]? = some 115
    rw [htext]
    rfl
  rcases h₂ with h₂ | h₂
  · exact absurd h₂ (by decide)
  · have h₂' : buf.bytes[7]? = some 0 := h₂
    rw [hs] at h₂'
    exact absurd h₂' (by decide)

end EltexHomeworks.UdpEcho
