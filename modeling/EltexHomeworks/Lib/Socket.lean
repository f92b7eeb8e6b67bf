import EltexHomeworks.Lib.CString

namespace EltexHomeworks.Lib

/-!
# What `recv` and `recvfrom` return

`RecvResult n` is the result of a `recv` into an array of `n` bytes: a chunk of the stream, the
end of the stream (0), or an error (-1).  `Datagram n` is what `recvfrom` stores of a datagram: its
first `n` bytes.

`CharArray.recv_independent_iff` says when what a receive leaves in its array does not depend on
what was there.
-/

/-- The result of a `recv` of at most `n` bytes from a stream. -/
inductive RecvResult (n : Nat)
  | chunk (d : List UInt8) (ne_nil : d ≠ []) (length_le : d.length ≤ n)
  | endOfStream
  | error

/-- The bytes of a datagram that fit in an array of `n` bytes; a datagram may be empty. -/
abbrev Datagram (n : Nat) := { d : List UInt8 // d.length ≤ n }

/-- The address of a peer: `sin_addr` and `sin_port`. -/
structure Endpoint where
  ip : BitVec 32
  port : BitVec 16
deriving DecidableEq, Repr

/-- What `recvfrom` returns: the datagram, and the address it was sent from. -/
structure Received (n : Nat) where
  data : Datagram n
  source : Endpoint

namespace RecvResult

variable {n : Nat}

/-- The bytes a `recv` took from the stream. -/
def data : RecvResult n → List UInt8
  | chunk d _ _ => d
  | endOfStream => []
  | error => []

theorem length_data_le (r : RecvResult n) : r.data.length ≤ n := by
  cases r with
  | chunk d _ h => exact h
  | endOfStream => exact Nat.zero_le n
  | error => exact Nat.zero_le n

end RecvResult

/-- A `recv` that fills the array leaves nothing of what was in it. -/
theorem CharArray.bytes_recv_full {n : Nat} (a : CharArray n) {d : List UInt8}
    (h : d.length = n) : (a.recv d).bytes = d := by
  rw [a.bytes_recv (Nat.le_of_eq h), h, List.drop_of_length_le (Nat.le_of_eq a.length_eq),
    List.append_nil]

/-- A terminated string is read back, whatever was in the array. -/
theorem CharArray.text_bytes_recv {n : Nat} (a : CharArray n) {d : List UInt8}
    (hlen : d.length ≤ n) (h : 0 ∈ d) : text (a.recv d).bytes = text d := by
  rw [a.bytes_recv hlen]
  exact text_append_of_mem h _

/-- **What a receive leaves** does not depend on what was in the array, and reads as a string of
    bytes received only, exactly when the receive fills the array with a terminated string. -/
theorem CharArray.recv_independent_iff {n : Nat} {d : List UInt8} (hd : d.length ≤ n) :
    (∀ a a' : CharArray n, (a.recv d).bytes = (a'.recv d).bytes ∧ 0 ∈ (a.recv d).bytes ∧
        ∀ c ∈ text (a.recv d).bytes, c ∈ d) ↔
      d.length = n ∧ 0 ∈ d := by
  constructor
  · intro h
    let zeros : CharArray n := ⟨List.replicate n 0, List.length_replicate⟩
    let ones : CharArray n := ⟨List.replicate n 1, List.length_replicate⟩
    obtain ⟨heq, hmem, -⟩ := h zeros ones
    have hzeros : (zeros.recv d).bytes = d ++ List.replicate (n - d.length) 0 := by
      rw [zeros.bytes_recv hd, List.drop_replicate]
    have hones : (ones.recv d).bytes = d ++ List.replicate (n - d.length) 1 := by
      rw [ones.bytes_recv hd, List.drop_replicate]
    -- the bytes behind those received differ, unless there are none
    have hrest : n - d.length = 0 := by
      rw [hzeros, hones] at heq
      have hreplicate := List.append_cancel_left heq
      by_contra hne
      have hone : (1 : UInt8) ∈ List.replicate (n - d.length) (0 : UInt8) := by
        rw [hreplicate]
        exact List.mem_replicate.mpr ⟨hne, rfl⟩
      exact absurd (List.eq_of_mem_replicate hone) (by decide)
    rw [hzeros, hrest] at hmem
    exact ⟨by omega, by simpa using hmem⟩
  · rintro ⟨hlen, hmem⟩ a a'
    rw [a.bytes_recv_full hlen, a'.bytes_recv_full hlen]
    exact ⟨rfl, hmem, fun c hc => List.takeWhile_sublist _ |>.subset hc⟩

end EltexHomeworks.Lib
