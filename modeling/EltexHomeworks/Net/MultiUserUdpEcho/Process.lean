import EltexHomeworks.Lib.Descriptors
import EltexHomeworks.Net.MultiUserUdpEcho.Model

namespace EltexHomeworks.MultiUserUdpEcho

open EltexHomeworks.Lib

/-!
# Multi-user UDP echo — one process and its forks, with every failure

The code of parent and child is one function: the child runs a loop inside the parent's, over the
same variables, and leaves it by `break` and `continue`.  A `Process` is at one of the calls of that
function; `next` follows it over the outcomes of the calls, and over a `fork` to the process the
label names, so that its runs are the histories of every process there is.

A new socket gets the lowest free number.  Before `close(sfd)` all lower numbers are taken, so `cfd`
is the number `sfd` was (`Numbered`), and the `recvfrom` of the outer loop finds a socket there.

* `neverServes_iff` — a forked process is never again before `fork`, or before the outer `recvfrom`
  with a socket, exactly in the histories in which no child's `recvfrom` fails.
-/

/-- Where a process is: before `recvfrom`, `fork`, `close(sfd)` or `socket`, before `sendto` or
    `recvfrom` of the inner loop, or gone. -/
inductive ProcessPc
  | recvfrom
  | fork
  | close
  | socket
  | sendto
  | recvfromInner
  | exited
deriving DecidableEq, Repr

/-- What a descriptor refers to: something the program was started with, or a socket. -/
inductive Open
  | inherited
  | socket
deriving DecidableEq, Repr

/-- A process of the server. -/
structure Process where
  pc : ProcessPc
  sfd : Nat
  cfd : Nat
  client : Endpoint
  buf : CharArray BUF_SIZE
  fds : Descriptors Open
  /-- It was forked to serve a client. -/
  forked : Bool

/-- What `fork` returns, with the process that is followed from there. -/
inductive ForkResult
  | failed
  | parent
  | child
deriving DecidableEq, Repr

/-- A step: which call returns, and with what; `none` and `false` are failures. -/
inductive Outcome
  | recvfrom (r : Option (Received BUF_SIZE))
  | fork (r : ForkResult)
  | close
  | socket (ok : Bool)
  | sendto (ok : Bool)

namespace Process

/-- The server before its loop, started with the descriptors `fds` open: `client` was cleared, and
    `cfd` and `buf` hold anything. -/
def start (fds : Descriptors Open) (cfd : Nat) (buf : CharArray BUF_SIZE) : Process where
  pc := .recvfrom
  sfd := fds.lowestFree
  cfd := cfd
  client := ⟨0, 0⟩
  buf := buf
  fds := fds.add .socket
  forked := false

variable (p : Process)

/-- There is a socket under the number `fd`. -/
def HasSocket (fd : Nat) : Prop := p.fds.get? fd = some .socket

instance (fd : Nat) : Decidable (p.HasSocket fd) := inferInstanceAs (Decidable (_ = _))

/-- The outer `recvfrom`: a failure ends the process, and without a socket it fails. -/
def recvfrom : Option (Received BUF_SIZE) → Option Process
  | none => some { p with pc := .exited }
  | some r =>
    if p.HasSocket p.sfd then
      some { p with pc := .fork, client := r.source, buf := p.buf.recv r.data.val }
    else none

/-- `fork`: the parent goes on in its loop, also after a failure. -/
def fork : ForkResult → Process
  | .failed => { p with pc := .recvfrom }
  | .parent => { p with pc := .recvfrom }
  | .child => { p with pc := .close, forked := true }

/-- `close(sfd)`. -/
def close : Process := { p with pc := .socket, fds := p.fds.close p.sfd }

/-- `cfd = socket(..)`: after a failure the child goes on in the loop of its parent. -/
def socket (ok : Bool) : Process :=
  if ok then { p with pc := .sendto, cfd := p.fds.lowestFree, fds := p.fds.add .socket }
  else { p with pc := .recvfrom }

/-- `sendto`, tried again until it succeeds; then `buf[0]` is cleared. -/
def sendto (ok : Bool) : Option Process :=
  if ok then
    if p.HasSocket p.cfd then some { p with pc := .recvfromInner, buf := p.buf.set 0 0 } else none
  else some p

/-- The inner `recvfrom`, which keeps the address: a failure leaves the inner loop. -/
def recvfromInner : Option (Received BUF_SIZE) → Option Process
  | none => some { p with pc := .recvfrom }
  | some r =>
    if p.HasSocket p.cfd then some { p with pc := .sendto, buf := p.buf.recv r.data.val } else none

/-- The process after a step; `none` for a call it is not at. -/
def next : Outcome → Option Process
  | .recvfrom r =>
    if p.pc = .recvfrom then p.recvfrom r
    else if p.pc = .recvfromInner then p.recvfromInner r
    else none
  | .fork r => if p.pc = .fork then some (p.fork r) else none
  | .close => if p.pc = .close then some p.close else none
  | .socket ok => if p.pc = .socket then some (p.socket ok) else none
  | .sendto ok => if p.pc = .sendto then p.sendto ok else none

/-- A forked process serves one client: it is not at the outer `recvfrom` with a socket to receive
    from, and not at `fork`. -/
def NeverServes : Prop :=
  p.forked = true → ¬ (p.pc = .recvfrom ∧ p.HasSocket p.sfd) ∧ p.pc ≠ .fork

/-- The `recvfrom` of a child fails. -/
def ReceiveFails (o : Outcome) : Prop := p.pc = .recvfromInner ∧ o = .recvfrom none

/-- The number `fd` is the lowest that would be free without the socket there. -/
def LowestSocket (fd : Nat) : Prop :=
  ∃ t : Descriptors Open, t.lowestFree = fd ∧ p.fds = t.add .socket

/-- **The invariant**: the number a child closes is the one its new socket gets. -/
def Numbered : Prop :=
  match p.pc with
  | .recvfrom => p.LowestSocket p.sfd ∨ p.forked = true ∧ p.fds.get? p.sfd = none
  | .fork => p.LowestSocket p.sfd
  | .close => p.forked = true ∧ p.LowestSocket p.sfd
  | .socket => p.forked = true ∧ p.fds.lowestFree = p.sfd
  | .sendto => p.forked = true ∧ p.cfd = p.sfd ∧ p.LowestSocket p.sfd
  | .recvfromInner => p.forked = true ∧ p.cfd = p.sfd ∧ p.LowestSocket p.sfd
  | .exited => True

variable {p} {q : Process} {o : Outcome}

theorem LowestSocket.hasSocket {fd : Nat} (h : p.LowestSocket fd) : p.HasSocket fd := by
  obtain ⟨t, rfl, hfds⟩ := h
  show p.fds.get? _ = _
  rw [hfds, Descriptors.get?_add_lowestFree]

/-! ### What a step does -/

/-- The transitions of a process. -/
inductive Moves (p : Process) : Outcome → Process → Prop
  | exit (hpc : p.pc = .recvfrom) : Moves p (.recvfrom none) { p with pc := .exited }
  | accept (r : Received BUF_SIZE) (hpc : p.pc = .recvfrom) (hsock : p.HasSocket p.sfd) :
      Moves p (.recvfrom (some r))
        { p with pc := .fork, client := r.source, buf := p.buf.recv r.data.val }
  | fork (r : ForkResult) (hpc : p.pc = .fork) : Moves p (.fork r) (p.fork r)
  | close (hpc : p.pc = .close) : Moves p .close p.close
  | socket (ok : Bool) (hpc : p.pc = .socket) : Moves p (.socket ok) (p.socket ok)
  | again (hpc : p.pc = .sendto) : Moves p (.sendto false) p
  | send (hpc : p.pc = .sendto) (hsock : p.HasSocket p.cfd) :
      Moves p (.sendto true) { p with pc := .recvfromInner, buf := p.buf.set 0 0 }
  | receive (r : Received BUF_SIZE) (hpc : p.pc = .recvfromInner) (hsock : p.HasSocket p.cfd) :
      Moves p (.recvfrom (some r)) { p with pc := .sendto, buf := p.buf.recv r.data.val }
  | leave (hpc : p.pc = .recvfromInner) : Moves p (.recvfrom none) { p with pc := .recvfrom }

/-- A step is one of the transitions. -/
theorem next_cases (h : p.next o = some q) : Moves p o q := by
  cases o with
  | recvfrom r =>
    -- the program receives at two places, and a failing call is another branch at each
    simp only [next] at h
    split at h
    · rename_i hpc
      cases r with
      | none => cases h; exact .exit hpc
      | some r =>
        obtain ⟨hsock, h⟩ := Option.ite_none_right_eq_some.mp h
        cases h
        exact .accept r hpc hsock
    · obtain ⟨hpc, h⟩ := Option.ite_none_right_eq_some.mp h
      cases r with
      | none => cases h; exact .leave hpc
      | some r =>
        obtain ⟨hsock, h⟩ := Option.ite_none_right_eq_some.mp h
        cases h
        exact .receive r hpc hsock
  | fork r =>
    obtain ⟨hpc, h⟩ := Option.ite_none_right_eq_some.mp h
    cases h
    exact .fork r hpc
  | close =>
    obtain ⟨hpc, h⟩ := Option.ite_none_right_eq_some.mp h
    cases h
    exact .close hpc
  | socket ok =>
    obtain ⟨hpc, h⟩ := Option.ite_none_right_eq_some.mp h
    cases h
    exact .socket ok hpc
  | sendto ok =>
    obtain ⟨hpc, h⟩ := Option.ite_none_right_eq_some.mp h
    -- a `sendto` that fails is made again
    cases ok with
    | false => cases h; exact .again hpc
    | true =>
      obtain ⟨hsock, h⟩ := Option.ite_none_right_eq_some.mp h
      cases h
      exact .send hpc hsock

/-- A transition can be taken. -/
theorem Moves.next (h : Moves p o q) : p.next o = some q := by
  cases h with
  | exit hpc => exact if_pos hpc
  | accept r hpc hsock => exact (if_pos hpc).trans (if_pos hsock)
  | fork r hpc => exact if_pos hpc
  | close hpc => exact if_pos hpc
  | socket ok hpc => exact if_pos hpc
  | again hpc => exact if_pos hpc
  | send hpc hsock => exact (if_pos hpc).trans (if_pos hsock)
  | receive r hpc hsock =>
    exact (if_neg (by rw [hpc]; nofun)).trans ((if_pos hpc).trans (if_pos hsock))
  | leave hpc => exact (if_neg (by rw [hpc]; nofun)).trans (if_pos hpc)

/-- The invariant at a place the process is known to be at. -/
theorem Numbered.at {pc : ProcessPc} (h : p.Numbered) (hpc : p.pc = pc) :
    Numbered { p with pc := pc } := by
  subst hpc
  exact h

/-- Every step keeps the invariant. -/
theorem Numbered.next (h : p.Numbered) (hq : p.next o = some q) : q.Numbered := by
  cases next_cases hq with
  | exit hpc => exact trivial
  | accept r hpc hsock =>
    -- a socket is there, so it was not closed
    rcases h.at hpc with hlow | ⟨-, hnone⟩
    · exact hlow
    · rw [HasSocket, show p.fds.get? p.sfd = none from hnone] at hsock
      cases hsock
  | fork r hpc =>
    have hlow : p.LowestSocket p.sfd := h.at hpc
    cases r with
    | failed => exact .inl hlow
    | parent => exact .inl hlow
    | child => exact ⟨rfl, hlow⟩
  | close hpc =>
    obtain ⟨hforked, t, ht, hfds⟩ := h.at hpc
    refine ⟨hforked, ?_⟩
    show (p.fds.close p.sfd).lowestFree = p.sfd
    rw [show p.fds = _ from hfds, ← show t.lowestFree = p.sfd from ht, t.lowestFree_close_add]
  | socket ok hpc =>
    obtain ⟨hforked, hlow⟩ := h.at hpc
    have hlow : p.fds.lowestFree = p.sfd := hlow
    cases ok with
    | true => exact ⟨hforked, hlow, p.fds, hlow, rfl⟩
    | false =>
      refine .inr ⟨hforked, ?_⟩
      show p.fds.get? p.sfd = none
      rw [← hlow, Descriptors.get?_lowestFree]
  | again hpc => exact h
  | send hpc hsock => exact h.at hpc
  | receive r hpc hsock => exact h.at hpc
  | leave hpc => exact .inl (h.at hpc).2.2

theorem numbered_start (fds : Descriptors Open) (cfd : Nat) (buf : CharArray BUF_SIZE) :
    (start fds cfd buf).Numbered := .inl ⟨fds, rfl, rfl⟩

/-! ### Children that stay children -/

/-- A child whose `recvfrom` fails is back at the outer one, and its own socket is there. -/
theorem ReceiveFails.serves (h : p.Numbered) (ho : p.ReceiveFails o) :
    ∃ q, p.next o = some q ∧ ¬ q.NeverServes := by
  obtain ⟨hpc, rfl⟩ := ho
  obtain ⟨hforked, -, hlow⟩ := h.at hpc
  refine ⟨{ p with pc := .recvfrom }, ?_, fun hq => ?_⟩
  · exact (Moves.leave hpc).next
  · exact (hq hforked).1 ⟨rfl, LowestSocket.hasSocket hlow⟩

theorem neverServes_of_ne (hrecvfrom : p.pc ≠ .recvfrom) (hfork : p.pc ≠ .fork) :
    p.NeverServes := fun _ => ⟨fun hout => hrecvfrom hout.1, hfork⟩

theorem neverServes_start (fds : Descriptors Open) (cfd : Nat) (buf : CharArray BUF_SIZE) :
    (start fds cfd buf).NeverServes := nofun

/-- Any other step keeps a child what it is. -/
theorem NeverServes.next (h : p.Numbered) (hp : p.NeverServes) (ho : ¬ p.ReceiveFails o)
    (hq : p.next o = some q) : q.NeverServes := by
  cases next_cases hq with
  | exit hpc => exact neverServes_of_ne nofun nofun
  | accept r hpc hsock => exact fun hforked => absurd ⟨hpc, hsock⟩ (hp hforked).1
  | fork r hpc =>
    cases r with
    | failed => exact fun hforked => absurd hpc (hp hforked).2
    | parent => exact fun hforked => absurd hpc (hp hforked).2
    | child => exact neverServes_of_ne nofun nofun
  | close hpc => exact neverServes_of_ne nofun nofun
  | socket ok hpc =>
    obtain ⟨-, hlow⟩ := h.at hpc
    cases ok with
    | true => exact neverServes_of_ne nofun nofun
    | false =>
      -- `sfd` was closed, and nothing was opened since
      refine fun _ => ⟨fun hout => ?_, nofun⟩
      have hsock : p.fds.get? p.sfd = some .socket := hout.2
      rw [← show p.fds.lowestFree = p.sfd from hlow, Descriptors.get?_lowestFree] at hsock
      cases hsock
  | again hpc => exact hp
  | send hpc hsock => exact neverServes_of_ne nofun nofun
  | receive r hpc hsock => exact neverServes_of_ne nofun nofun
  | leave hpc => exact absurd ⟨hpc, rfl⟩ ho

/-- **Children never become servers** in a history exactly when no `recvfrom` of a child fails in
    it, whatever `socket`, `sendto`, `fork` and the outer `recvfrom` return. -/
theorem neverServes_iff (fds : Descriptors Open) (cfd : Nat) (buf : CharArray BUF_SIZE)
    (os : List Outcome) :
    Throughout Process.next NeverServes (start fds cfd buf) os ↔
      Along Process.next (fun p o => ¬ p.ReceiveFails o) (start fds cfd buf) os := by
  apply throughout_iff_never (I := Numbered) _ _ _ (numbered_start fds cfd buf) _ os
  · exact fun p o q h _ hq => h.next hq
  · exact fun p o h ho => ho.serves h
  · exact fun p o q h hp ho hq => hp.next h ho hq
  · exact neverServes_start fds cfd buf

/-- A child whose `recvfrom` fails receives the application of another client, and forks. -/
theorem serves_of_receive_fails :
    ¬ Throughout Process.next NeverServes
      (start ⟨List.replicate 3 (some .inherited)⟩ 0
        ⟨List.replicate BUF_SIZE 0, List.length_replicate⟩)
      [.recvfrom (some ⟨⟨application, by decide⟩, 2130706433, 4000⟩), .fork .child, .close,
        .socket true, .sendto true, .recvfrom none,
        .recvfrom (some ⟨⟨application, by decide⟩, 2130706433, 4001⟩)] := by
  intro h
  exact (h _ _ (List.prefix_refl _) rfl rfl).2 rfl

end Process

end EltexHomeworks.MultiUserUdpEcho
