import Mathlib.Data.List.Induction
import EltexHomeworks.Lib.Socket

namespace EltexHomeworks.MultiUserTcpEcho

open EltexHomeworks.Lib

/-!
# Multi-user TCP echo — the child that serves a connection

The child sends a welcome and then, over and over, receives into `buf` and sends `buf`.  The
length of the `send` is `BUF_SIZE` whatever the `recv` before it returned, so a reply is the chunk
received followed by what earlier chunks left in the buffer: `sends_turn`.

`echo_iff` says when the child is an echo: exactly when every `recv` filled the buffer.
-/

/-- The size of the buffers of server and client. -/
def BUF_SIZE : Nat := 500

/-- `send_from_serv`, with its NUL. -/
def sendFromServ : List UInt8 := [87, 101, 108, 99, 111, 109, 101, 0]

/-- A child: its buffer, and what it has sent on the connection, one entry for each `send`. -/
structure Child where
  buf : CharArray BUF_SIZE
  sends : List (List UInt8)

namespace Child

/-- The child before its loop: `buf` holds what the parent's did, and the welcome is sent. -/
def start (buf : CharArray BUF_SIZE) : Child where
  buf := buf
  sends := [sendFromServ]

/-- One turn of the loop.  Neither the result of `recv` nor that of `send` is looked at. -/
def turn (c : Child) (r : RecvResult BUF_SIZE) : Child where
  buf := c.buf.recv r.data
  sends := c.sends ++ [(c.buf.recv r.data).bytes]

/-- The child after the turns whose `recv`s returned `rs`. -/
def serve (buf : CharArray BUF_SIZE) (rs : List (RecvResult BUF_SIZE)) : Child :=
  rs.foldl turn (start buf)

/-- The bytes sent after the welcome. -/
def echoed (c : Child) : List UInt8 := (c.sends.drop 1).flatten

end Child

/-- The bytes the `recv`s took from the stream, one after the other. -/
def received (rs : List (RecvResult BUF_SIZE)) : List UInt8 := (rs.map RecvResult.data).flatten

theorem received_append_singleton (rs : List (RecvResult BUF_SIZE)) (r : RecvResult BUF_SIZE) :
    received (rs ++ [r]) = received rs ++ r.data := by
  simp [received]

namespace Child

/-- **A reply** is the chunk just received and, up to `BUF_SIZE` bytes, what was in the buffer
    behind it. -/
theorem sends_turn (c : Child) (r : RecvResult BUF_SIZE) :
    (c.turn r).sends = c.sends ++ [r.data ++ c.buf.bytes.drop r.data.length] := by
  show c.sends ++ [(c.buf.recv r.data).bytes] = _
  rw [c.buf.bytes_recv r.length_data_le]

theorem serve_append_singleton (buf : CharArray BUF_SIZE) (rs : List (RecvResult BUF_SIZE))
    (r : RecvResult BUF_SIZE) : serve buf (rs ++ [r]) = (serve buf rs).turn r := by
  rw [serve, List.foldl_append]
  rfl

/-- The welcome is the first thing sent. -/
theorem length_sends_serve (buf : CharArray BUF_SIZE) (rs : List (RecvResult BUF_SIZE)) :
    (serve buf rs).sends.length = rs.length + 1 := by
  induction rs using List.reverseRecOn with
  | nil => rfl
  | append_singleton rs r ih =>
    rw [serve_append_singleton, sends_turn, List.length_append, ih, List.length_append]
    rfl

/-- Every turn adds `BUF_SIZE` bytes to what was sent. -/
theorem echoed_serve_append_singleton (buf : CharArray BUF_SIZE)
    (rs : List (RecvResult BUF_SIZE)) (r : RecvResult BUF_SIZE) :
    (serve buf (rs ++ [r])).echoed =
      (serve buf rs).echoed ++ ((serve buf rs).buf.recv r.data).bytes := by
  have hlen := length_sends_serve buf rs
  rw [serve_append_singleton, echoed, echoed]
  show ((((serve buf rs).sends ++ [((serve buf rs).buf.recv r.data).bytes]).drop 1).flatten) = _
  rw [List.drop_append_of_le_length (by omega), List.flatten_append, List.flatten_singleton]

theorem length_echoed_serve (buf : CharArray BUF_SIZE) (rs : List (RecvResult BUF_SIZE)) :
    (serve buf rs).echoed.length = rs.length * BUF_SIZE := by
  induction rs using List.reverseRecOn with
  | nil => rfl
  | append_singleton rs r ih =>
    rw [echoed_serve_append_singleton, List.length_append, ih, CharArray.length_eq,
      List.length_append, List.length_singleton, Nat.add_mul, Nat.one_mul]

end Child

/-- No `recv` returns more than `BUF_SIZE` bytes, so as many bytes as `rs.length` full buffers
    were received only if every one was full. -/
theorem length_received_eq_iff (rs : List (RecvResult BUF_SIZE)) :
    (received rs).length = rs.length * BUF_SIZE ↔ ∀ r ∈ rs, r.data.length = BUF_SIZE := by
  have hle : ∀ rs : List (RecvResult BUF_SIZE),
      (received rs).length ≤ rs.length * BUF_SIZE := by
    intro rs
    induction rs using List.reverseRecOn with
    | nil => exact Nat.le_refl 0
    | append_singleton rs r ih =>
      have := r.length_data_le
      rw [received_append_singleton, List.length_append, List.length_append, List.length_singleton,
        Nat.add_mul, Nat.one_mul]
      omega
  induction rs using List.reverseRecOn with
  | nil => simp [received]
  | append_singleton rs r ih =>
    have h₁ := hle rs
    have h₂ := r.length_data_le
    rw [received_append_singleton, List.length_append, List.length_append, List.length_singleton,
      Nat.add_mul, Nat.one_mul, List.forall_mem_append, List.forall_mem_singleton]
    constructor
    · intro h
      exact ⟨ih.mp (by omega), by omega⟩
    · rintro ⟨h, hr⟩
      rw [ih.mpr h, hr]

/-- **When the child is an echo.**  What it has sent after the welcome is what it has received,
    if and only if every `recv` so far returned `BUF_SIZE` bytes. -/
theorem echo_iff (buf : CharArray BUF_SIZE) (rs : List (RecvResult BUF_SIZE)) :
    (Child.serve buf rs).echoed = received rs ↔ ∀ r ∈ rs, r.data.length = BUF_SIZE := by
  constructor
  · intro h
    rw [← length_received_eq_iff, ← h, Child.length_echoed_serve]
  · intro h
    induction rs using List.reverseRecOn with
    | nil => rfl
    | append_singleton rs r ih =>
      rw [List.forall_mem_append, List.forall_mem_singleton] at h
      rw [Child.echoed_serve_append_singleton, received_append_singleton, ih h.1,
        CharArray.bytes_recv_full _ h.2]

/-- The eight bytes the client of the repository sends, `Hi Ilya` with its NUL, come back as
    `BUF_SIZE` bytes. -/
theorem not_echo :
    ¬ ∀ (buf : CharArray BUF_SIZE) (rs : List (RecvResult BUF_SIZE)),
      (∀ r ∈ rs, r.data ≠ []) → (Child.serve buf rs).echoed = received rs := by
  intro h
  have hi := h ⟨List.replicate BUF_SIZE 0, List.length_replicate⟩
    [.chunk [72, 105, 32, 73, 108, 121, 97, 0] (by decide) (by decide)] (by simp [RecvResult.data])
  have hlen := congrArg List.length hi
  rw [Child.length_echoed_serve] at hlen
  exact absurd hlen (by decide)

end EltexHomeworks.MultiUserTcpEcho
