import EltexHomeworks.Lib.Descriptors
import EltexHomeworks.Lib.Run
import EltexHomeworks.Net.MultiUserTcpEcho

namespace EltexHomeworks.MultiUserTcpEcho

open EltexHomeworks.Lib

/-!
# Multi-user TCP echo — the parent and its descriptors

The parent accepts and forks, over and over; the child has a copy of the descriptor table, closes
the listening socket in it and serves the connection.  Nobody closes the connection in the parent's
table, and a failed `accept` is followed by a `fork` like a successful one.

* `Server.next` — a step of the parent or of one of its children, in any interleaving;
* `holdsNoClients_iff` — the parent is without connections at the top of its loop, and its children
  have one, exactly in the runs in which no `fork` succeeds.
-/

/-- What a descriptor refers to: something the program was started with, the listening socket, or
    the `k`-th connection. -/
inductive Sock
  | inherited
  | listening
  | connection (k : Nat)
deriving DecidableEq, Repr

/-- Where the parent is: before `accept` or `fork`, or gone. -/
inductive ParentPc
  | accept
  | fork
  | exited
deriving DecidableEq, Repr

/-- Where a child is: before `close(fd)`, before its first `send`, or in its loop. -/
inductive ChildPc
  | close
  | welcome
  | serve
deriving DecidableEq, Repr

/-- A child process, with its copies of the descriptors and of `cfd`; `none` stands for `-1`. -/
structure ChildProcess where
  pc : ChildPc
  cfd : Option Nat
  fds : Descriptors Sock
  child : Child

/-- The parent and its children. -/
structure Server where
  pc : ParentPc
  fd : Nat
  cfd : Option Nat
  fds : Descriptors Sock
  buf : CharArray BUF_SIZE
  /-- How many connections were accepted. -/
  accepted : Nat
  children : List ChildProcess

/-- A step: which call of the parent returns, and whether it succeeds, or a step of child `j`; `r`
    is what its `recv` returns, if it is in its loop. -/
inductive ServerLabel
  | accept (ok : Bool)
  | fork (ok : Bool)
  | child (j : Nat) (r : RecvResult BUF_SIZE)

namespace ChildProcess

variable (c : ChildProcess)

/-- `cfd` is open. -/
def Connected : Prop := c.cfd.bind c.fds.get? ≠ none

instance : Decidable c.Connected := inferInstanceAs (Decidable (_ ≠ none))

/-- A step of the child, whose listening socket has the number `fd`.  Without a connection every
    `recv` and every `send` fails, and the child goes on all the same. -/
def step (fd : Nat) (r : RecvResult BUF_SIZE) : Option ChildProcess :=
  match c.pc with
  | .close => some { c with pc := .welcome, fds := c.fds.close fd }
  | .welcome =>
    some { c with pc := .serve, child := if c.Connected then .start c.child.buf else c.child }
  | .serve =>
    if c.Connected then some { c with child := c.child.turn r }
    else match r with
      | .error => some c
      | _ => none

/-- Whatever it does, a child keeps its `cfd`. -/
theorem cfd_of_step {c c' : ChildProcess} {fd : Nat} {r : RecvResult BUF_SIZE}
    (h : c.step fd r = some c') : c'.cfd = c.cfd := by
  unfold step at h
  split at h
  · cases h; rfl
  · cases h; rfl
  · split at h
    · cases h; rfl
    · split at h
      · cases h; rfl
      · cases h

end ChildProcess

namespace Server

/-- The server before its loop; `taken` says which numbers were open when it was started. -/
def start (taken : List Bool) (buf : CharArray BUF_SIZE) : Server :=
  let fds : Descriptors Sock := ⟨taken.map fun b => if b then some .inherited else none⟩
  { pc := .accept
    fd := fds.lowestFree
    cfd := none
    fds := fds.add .listening
    buf := buf
    accepted := 0
    children := [] }

variable (s : Server)

/-- `accept`, whose result is not looked at. -/
def accept (ok : Bool) : Server :=
  if ok then
    { s with
      pc := .fork
      cfd := some s.fds.lowestFree
      fds := s.fds.add (.connection s.accepted)
      accepted := s.accepted + 1 }
  else { s with pc := .fork, cfd := none }

/-- `fork`: the child gets copies, and the parent is back at the top of its loop; after a failure
    it exits. -/
def fork (ok : Bool) : Server :=
  if ok then
    { s with pc := .accept, children := s.children ++ [⟨.close, s.cfd, s.fds, ⟨s.buf, []⟩⟩] }
  else { s with pc := .exited }

/-- The next state; `none` for a call the process in question is not at. -/
def next : ServerLabel → Option Server
  | .accept ok => if s.pc = .accept then some (s.accept ok) else none
  | .fork ok => if s.pc = .fork then some (s.fork ok) else none
  | .child j r => do
    let c ← s.children[j]?
    let c' ← c.step s.fd r
    some { s with children := s.children.set j c' }

/-- At the top of its loop the parent has no socket but the listening one, and its children were
    forked for connections. -/
structure HoldsNoClients : Prop where
  top : s.pc = .accept → ∀ n sock, s.fds.get? n = some sock →
    sock = .inherited ∨ n = s.fd ∧ sock = .listening
  forked : ∀ c ∈ s.children, c.cfd ≠ none

/-- A `fork` succeeds. -/
def Forks (l : ServerLabel) : Prop := s.pc = .fork ∧ l = .fork true

/-- The invariant: what `accept` has returned is open, and the parent forks. -/
def Accepted : Prop :=
  s.pc = .fork → ∀ n, s.cfd = some n → ∃ k, s.fds.get? n = some (.connection k)

variable {s} {t : Server} {l : ServerLabel}

/-- Every step keeps the invariant. -/
theorem Accepted.next (h : s.Accepted) (ht : s.next l = some t) : t.Accepted := by
  cases l with
  | accept ok =>
    obtain ⟨-, ht⟩ := Option.ite_none_right_eq_some.mp ht
    cases ht
    cases ok with
    | true =>
      rintro - n hn
      cases hn
      exact ⟨_, s.fds.get?_add_lowestFree _⟩
    | false =>
      rintro - n hn
      cases hn
  | fork ok =>
    obtain ⟨-, ht⟩ := Option.ite_none_right_eq_some.mp ht
    cases ht
    cases ok <;> exact fun hpc => by cases hpc
  | child j r =>
    obtain ⟨c, -, ht⟩ := Option.bind_eq_some_iff.mp ht
    obtain ⟨c', -, ht⟩ := Option.bind_eq_some_iff.mp ht
    cases ht
    exact h

/-- After a `fork` the parent has the connection of the child, or the child has none. -/
theorem Forks.holds (h : s.Accepted) (hl : s.Forks l) :
    ∃ t, s.next l = some t ∧ ¬ t.HoldsNoClients := by
  obtain ⟨hpc, rfl⟩ := hl
  refine ⟨s.fork true, if_pos hpc, fun ht => ?_⟩
  cases hcfd : s.cfd with
  | none =>
    refine ht.forked ⟨.close, s.cfd, s.fds, ⟨s.buf, []⟩⟩ ?_ hcfd
    exact List.mem_append_right _ (List.mem_singleton_self _)
  | some n =>
    obtain ⟨k, hk⟩ := h hpc n hcfd
    rcases ht.top rfl n _ hk with hsock | ⟨-, hsock⟩ <;> cases hsock

/-- Any other step keeps the parent without connections. -/
theorem HoldsNoClients.next (h : s.HoldsNoClients) (hl : ¬ s.Forks l) (ht : s.next l = some t) :
    t.HoldsNoClients := by
  cases l with
  | accept ok =>
    obtain ⟨-, ht⟩ := Option.ite_none_right_eq_some.mp ht
    cases ht
    cases ok <;> exact ⟨nofun, h.forked⟩
  | fork ok =>
    obtain ⟨hpc, ht⟩ := Option.ite_none_right_eq_some.mp ht
    cases ht
    cases ok with
    | true => exact absurd ⟨hpc, rfl⟩ hl
    | false => exact ⟨nofun, h.forked⟩
  | child j r =>
    obtain ⟨c, hc, ht⟩ := Option.bind_eq_some_iff.mp ht
    obtain ⟨c', hc', ht⟩ := Option.bind_eq_some_iff.mp ht
    cases ht
    refine ⟨h.top, fun c'' hmem => ?_⟩
    rcases List.mem_or_eq_of_mem_set hmem with hmem | rfl
    · exact h.forked c'' hmem
    · rw [ChildProcess.cfd_of_step hc']
      exact h.forked c (List.mem_of_getElem? hc)

theorem accepted_start (taken : List Bool) (buf : CharArray BUF_SIZE) :
    (start taken buf).Accepted := nofun

theorem holdsNoClients_start (taken : List Bool) (buf : CharArray BUF_SIZE) :
    (start taken buf).HoldsNoClients := by
  refine ⟨fun _ n sock hn => ?_, nofun⟩
  by_cases hfd : n = (start taken buf).fd
  · refine .inr ⟨hfd, ?_⟩
    rw [hfd] at hn
    exact (Option.some.inj ((Descriptors.get?_add_lowestFree _ _).symm.trans hn)).symm
  · have hn : (Descriptors.add _ Sock.listening).get? n = some sock := hn
    rw [Descriptors.get?_add_of_ne _ hfd, Descriptors.get?, List.getD_eq_getElem?_getD,
      List.getElem?_map] at hn
    cases hb : taken[n]? with
    | none => simp [hb] at hn
    | some b => cases b <;> simp_all

/-- **The parent without connections.**  In any interleaving of parent and children, the parent is
    without connections at the top of its loop and its children have one, throughout a run exactly
    when no `fork` succeeds in it. -/
theorem holdsNoClients_iff (taken : List Bool) (buf : CharArray BUF_SIZE)
    (ls : List ServerLabel) :
    Throughout Server.next HoldsNoClients (start taken buf) ls ↔
      Along Server.next (fun s l => ¬ s.Forks l) (start taken buf) ls := by
  apply throughout_iff_never (I := Accepted) _ _ _ (accepted_start taken buf)
    (holdsNoClients_start taken buf) ls
  · exact fun s l t h _ ht => h.next ht
  · exact fun s l h hl => hl.holds h
  · exact fun s l t _ hs hl ht => hs.next hl ht

/-- One client is accepted, and the parent is back at the top of its loop. -/
theorem holds_client_of_fork :
    ¬ Throughout Server.next HoldsNoClients
      (start [true, true, true] ⟨List.replicate BUF_SIZE 0, List.length_replicate⟩)
      [.accept true, .fork true] := by
  intro h
  have htop := (h _ _ (List.prefix_refl _) rfl).top rfl 4 (.connection 0) (by decide)
  rcases htop with hsock | ⟨-, hsock⟩ <;> cases hsock

end Server

end EltexHomeworks.MultiUserTcpEcho
