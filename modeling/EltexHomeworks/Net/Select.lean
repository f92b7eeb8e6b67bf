import EltexHomeworks.Lib.Run
import EltexHomeworks.Lib.Socket

namespace EltexHomeworks.Select

open EltexHomeworks.Lib

/-!
# TCP/UDP server on `select`

`main` waits with `select` for a connection or a datagram, answers what is there, and waits again.
`rfds` and `client_addr` are variables of its own: a `select` or a `recvfrom` that fails leaves them
as they are, and `main` goes on as after a success.

The state also keeps what `select` reported in this turn of the loop and where a datagram received
in it came from; `ActsOnReports` compares the calls of `main` with them.

* `actsOnReports_iff` — `main` calls only what `select` reported, and replies only to whom it
  received from, exactly in the runs in which no `select` and no `recvfrom` fails.
-/

def BUF_SIZE : Nat := 512

/-- An `fd_set`, as far as the two listening sockets go. -/
structure FdSet where
  tcp : Bool
  udp : Bool
deriving DecidableEq, Repr

/-- Where `main` is: before `select`, `accept`, `send`, `close`, `recvfrom` or `sendto`. -/
inductive Pc
  | select
  | accept
  | send (cfd : Nat)
  | close (cfd : Nat)
  | recvfrom
  | sendto
deriving DecidableEq, Repr

structure State where
  pc : Pc
  rfds : FdSet
  clientAddr : Endpoint
  buf : CharArray BUF_SIZE
  /-- What `select` reported in this turn, unless it failed. -/
  reported : Option FdSet
  /-- The sender of the datagram received in this turn. -/
  source : Option Endpoint

/-- A step: which call returns, and with what; `none` is a failure. -/
inductive Label
  | select (ready : Option FdSet)
  | accept (cfd : Nat) (addr : Endpoint)
  | send
  | close
  | recvfrom (r : Option (Received BUF_SIZE))
  | sendto

namespace State

variable (s : State)

/-- `FD_ISSET(udp_sock, &rfds)`, and the next turn if it is not. -/
def testUdp : State := { s with pc := if s.rfds.udp then .recvfrom else .select }

/-- Both sockets are put into `rfds` before `select`, which leaves there what is ready; after a
    failure they both still are. -/
def select (ready : Option FdSet) : State :=
  let s := { s with rfds := ready.getD ⟨true, true⟩, reported := ready, source := none }
  if s.rfds.tcp then { s with pc := .accept } else s.testUdp

/-- `accept` writes the address of the client. -/
def accept (cfd : Nat) (addr : Endpoint) : State := { s with pc := .send cfd, clientAddr := addr }

/-- `send`, whose result is not looked at. -/
def send (cfd : Nat) : State := { s with pc := .close cfd }

/-- `close`, and the test behind it. -/
def close : State := s.testUdp

/-- `recvfrom`: a failure leaves buffer and address as they were. -/
def recvfrom (r : Option (Received BUF_SIZE)) : State :=
  { s with
    pc := .sendto
    buf := s.buf.recv ((r.map fun r => r.data.val).getD [])
    clientAddr := (r.map Received.source).getD s.clientAddr
    source := r.map Received.source }

/-- `sendto`, to the address in `client_addr`. -/
def sendto : State := { s with pc := .select }

/-- The next state; `none` for a call the server is not at.  What a call returns comes with its
    label, so that a run has any results of `select` and `recvfrom`. -/
def next : Label → Option State
  | .select ready => if s.pc = .select then some (s.select ready) else none
  | .accept cfd addr => if s.pc = .accept then some (s.accept cfd addr) else none
  | .send => match s.pc with
    | .send cfd => some (s.send cfd)
    | _ => none
  | .close => match s.pc with
    | .close _ => some s.close
    | _ => none
  | .recvfrom r => if s.pc = .recvfrom then some (s.recvfrom r) else none
  | .sendto => if s.pc = .sendto then some s.sendto else none

end State

/-- A call on a listening socket is made only if `select` has reported the socket in this turn, and
    a reply is sent only to whom a datagram was received from in it. -/
structure ActsOnReports (s : State) : Prop where
  accept : s.pc = .accept → ∃ ready, s.reported = some ready ∧ ready.tcp = true
  recvfrom : s.pc = .recvfrom → ∃ ready, s.reported = some ready ∧ ready.udp = true
  sendto : s.pc = .sendto → s.source = some s.clientAddr

/-- A `select` or a `recvfrom` fails. -/
def State.WaitFails (s : State) (l : Label) : Prop :=
  s.pc = .select ∧ l = .select none ∨ s.pc = .recvfrom ∧ l = .recvfrom none

/-- The invariant: within a turn `rfds` is what `select` has reported. -/
def State.Current (s : State) : Prop := s.pc ≠ .select → s.reported = some s.rfds

variable {s t : State}

/-- The test of the UDP socket goes by what was reported. -/
theorem State.testUdp_acts (h : s.reported = some s.rfds) :
    ActsOnReports s.testUdp ∧ s.testUdp.Current := by
  unfold State.testUdp
  split
  · rename_i hudp
    exact ⟨⟨nofun, fun _ => ⟨s.rfds, h, hudp⟩, nofun⟩, fun _ => h⟩
  · exact ⟨⟨nofun, nofun, nofun⟩, fun hne => absurd rfl hne⟩

/-- A step in which nothing fails acts on what was reported. -/
theorem State.next_acts {l : Label} (hs : s.Current) (hl : ¬ s.WaitFails l)
    (h : s.next l = some t) : ActsOnReports t ∧ t.Current := by
  cases l with
  | select ready =>
    obtain ⟨hpc, ht⟩ := Option.ite_none_right_eq_some.mp h
    cases ht
    cases ready with
    | none => exact absurd (.inl ⟨hpc, rfl⟩) hl
    | some ready =>
      simp only [State.select, Option.getD_some]
      -- what `select` reported is in `rfds`, and TCP is looked at first
      split
      · rename_i htcp
        exact ⟨⟨fun _ => ⟨ready, rfl, htcp⟩, nofun, nofun⟩, fun _ => rfl⟩
      · exact testUdp_acts rfl
  | accept cfd addr =>
    obtain ⟨hpc, ht⟩ := Option.ite_none_right_eq_some.mp h
    cases ht
    exact ⟨⟨nofun, nofun, nofun⟩, fun _ => hs (by rw [hpc]; nofun)⟩
  | send =>
    simp only [State.next] at h
    split at h
    · rename_i cfd hpc
      cases h
      exact ⟨⟨nofun, nofun, nofun⟩, fun _ => hs (by rw [hpc]; nofun)⟩
    · cases h
  | close =>
    simp only [State.next] at h
    split at h
    · rename_i cfd hpc
      cases h
      -- behind the connection it is the same report that is looked at
      exact testUdp_acts (hs (by rw [hpc]; nofun))
    · cases h
  | recvfrom r =>
    obtain ⟨hpc, ht⟩ := Option.ite_none_right_eq_some.mp h
    cases ht
    cases r with
    -- a failed `recvfrom` is what the condition excludes
    | none => exact absurd (.inr ⟨hpc, rfl⟩) hl
    | some r => exact ⟨⟨nofun, nofun, fun _ => rfl⟩, fun _ => hs (by rw [hpc]; nofun)⟩
  | sendto =>
    obtain ⟨hpc, ht⟩ := Option.ite_none_right_eq_some.mp h
    cases ht
    exact ⟨⟨nofun, nofun, nofun⟩, fun hne => absurd rfl hne⟩

/-- After a failure `main` calls `accept` on an empty report, or replies to an old address. -/
theorem State.fails_not_acts {l : Label} (hl : s.WaitFails l) :
    ∃ t, s.next l = some t ∧ ¬ ActsOnReports t := by
  rcases hl with ⟨hpc, rfl⟩ | ⟨hpc, rfl⟩
  · refine ⟨s.select none, if_pos hpc, fun h => ?_⟩
    obtain ⟨ready, hready, -⟩ := h.accept rfl
    cases hready
  · refine ⟨s.recvfrom none, if_pos hpc, fun h => ?_⟩
    cases h.sendto rfl

/-- **Readiness.**  From the top of its loop, `main` acts only on what was reported throughout a run
    exactly when no `select` and no `recvfrom` fails in it. -/
theorem actsOnReports_iff (hs : s.pc = .select) (ls : List Label) :
    Throughout State.next ActsOnReports s ls ↔
      Along State.next (fun s l => ¬ s.WaitFails l) s ls := by
  have hacts : ActsOnReports s := by
    constructor <;> rw [hs] <;> exact nofun
  apply throughout_iff_never (I := State.Current) _ _ _ (fun hne => absurd hs hne) hacts ls
  · -- a step to a state that acts on what was reported is no failure
    intro s l t hs ht h
    refine (State.next_acts hs (fun hl => ?_) h).2
    obtain ⟨t', ht', hnot⟩ := State.fails_not_acts hl
    exact hnot (Option.some.inj (ht'.symm.trans h) ▸ ht)
  · exact fun s l _ hl => State.fails_not_acts hl
  · exact fun s l t hs _ hl h => (State.next_acts hs hl h).1

/-- A server before its loop, which has not seen any client. -/
def idle : State where
  pc := .select
  rfds := ⟨false, false⟩
  clientAddr := ⟨0, 0⟩
  buf := ⟨List.replicate BUF_SIZE 0, List.length_replicate⟩
  reported := none
  source := none

end EltexHomeworks.Select
