import EltexHomeworks.Lib.Run
import EltexHomeworks.Net.TcpEcho

namespace EltexHomeworks.TcpEcho

open EltexHomeworks.Lib

/-!
# TCP echo — the bound of `message` over whole runs

The server never clears `message`, and its loop ends for no result of `recv`: what one turn leaves
is what the next `recv` overwrites a prefix of, or nothing of at the end of the stream.  The limit
given to `strncat` is the size of the array, which is no limit on a suffix of 17 bytes.

* `serve` — a turn of the loop, over any result of `recv`;
* `bounded_throughout_iff` — every `strncat` of a run stays in `message` exactly when each finds a
  NUL among the first 483 bytes, received or left over.
-/

/-- A turn of the server; `none` when `strncat` leaves `message`.  After an error there is none. -/
def serve (message : CharArray BUF_SIZE) : RecvResult BUF_SIZE → Option (CharArray BUF_SIZE)
  | .error => some message
  | r => receive message r.data

/-- The string that `strncat` leaves after `r` lies in `message` with its NUL. -/
def Bounded (message : CharArray BUF_SIZE) (r : RecvResult BUF_SIZE) : Prop :=
  r ≠ .error → ∃ message', receive message r.data = some message' ∧ 0 ∈ message'.bytes

/-- After `r` a NUL stands among the first 483 bytes: one that was received, or one that was there
    behind what was received. -/
def Room (message : CharArray BUF_SIZE) (r : RecvResult BUF_SIZE) : Prop :=
  r ≠ .error → 0 ∈ r.data.take 483 ∨
    ∃ i, r.data.length ≤ i ∧ i ≤ 482 ∧ message.bytes[i]? = some 0

/-- One turn. -/
theorem bounded_iff_room (message : CharArray BUF_SIZE) (r : RecvResult BUF_SIZE) :
    Bounded message r ↔ Room message r := by
  refine imp_congr_right fun _ => ?_
  have hroom : (receive message r.data).isSome ↔ 0 ∈ r.data.take 483 ∨
      ∃ i, r.data.length ≤ i ∧ i ≤ 482 ∧ message.bytes[i]? = some 0 :=
    message.isSome_strncat_recv_iff r.length_data_le (by rw [suffix_take]; rfl)
  rw [← hroom, Option.isSome_iff_exists]
  constructor
  · rintro ⟨message', h, -⟩
    exact ⟨message', h⟩
  · rintro ⟨message', h⟩
    exact ⟨message', h, CharArray.nul_mem_strncat h⟩

/-- **The bound over whole runs.**  Whatever was in `message` and whatever `recv` returns, every
    `strncat` stays in `message` exactly when each of them finds room. -/
theorem bounded_throughout_iff (message : CharArray BUF_SIZE) (rs : List (RecvResult BUF_SIZE)) :
    Along serve Bounded message rs ↔ Along serve Room message rs :=
  along_congr (I := fun _ => True) (P := fun _ _ => True) (fun _ _ _ _ _ _ _ => trivial)
    (fun message r _ _ => bounded_iff_room message r) trivial
    (along_of_forall (fun _ _ => trivial) message rs)

/-- A run whose `strncat`s all stay in `message` goes through. -/
theorem isSome_run_of_bounded {message : CharArray BUF_SIZE} {rs : List (RecvResult BUF_SIZE)}
    (h : Along serve Bounded message rs) : (run serve message rs).isSome := by
  rw [isSome_run_iff]
  induction rs generalizing message with
  | nil => trivial
  | cons r rs ih =>
    obtain ⟨hr, hrs⟩ := h
    refine ⟨?_, fun t ht => ih (hrs t ht)⟩
    cases r with
    | error => rfl
    | chunk d hne hle =>
      obtain ⟨message', hm, -⟩ := hr nofun
      exact Option.isSome_iff_exists.mpr ⟨message', hm⟩
    | endOfStream =>
      obtain ⟨message', hm, -⟩ := hr nofun
      exact Option.isSome_iff_exists.mpr ⟨message', hm⟩

/-- A client sends `Hi Ilya` and closes its side: the 28th turn after that leaves `message`. -/
theorem not_bounded_of_endOfStream :
    ¬ Along serve Bounded zeros
      (.chunk messageTo (by decide) (by decide) :: List.replicate 28 .endOfStream) := by
  intro h
  have hsome := isSome_run_of_bounded h
  exact absurd hsome (by decide +kernel)

end EltexHomeworks.TcpEcho
