import EltexHomeworks.Net.MultiUserUdpEcho.Model

namespace EltexHomeworks.MultiUserUdpEcho

open EltexHomeworks.Lib

/-!
# Multi-user UDP echo — what a step can do

`Moves` lists the transitions of the system, each with its guard and its effect; `next_cases` says
that a step is one of them.
-/

variable {ι : Type} [DecidableEq ι]

/-- The application of client `i`. -/
def applicationOf (i : ι) : Packet ι := ⟨.client i, .server, application⟩

/-- A message of client `i` to `dst`. -/
def messageOf (i : ι) (dst : Addr ι) : Packet ι := ⟨.client i, dst, dataToSend⟩

/-- The transitions of the system: those of a client, of the parent and of a child, each with the
    place it is taken at and the datagram it receives.  `lose` is the network's own, and a datagram
    that is sent may be received at any later time. -/
inductive Moves (s : State ι) : State ι → Prop
  | apply (i : ι) (hpc : (s.clients i).pc = .start) :
      Moves s ((s.setClient i { s.clients i with
        pc := .handshake
        sent := (s.clients i).sent ++ [applicationOf i] }).send (applicationOf i))
  | shake (i : ι) (p : Packet ι) (hpc : (s.clients i).pc = .handshake) (hp : p ∈ s.net)
      (hdst : p.dst = .client i) :
      Moves s ((s.drop p).setClient i { s.clients i with pc := .send, server := p.src })
  | ask (i : ι) (hpc : (s.clients i).pc = .send) :
      Moves s ((s.setClient i { s.clients i with
        pc := .reply
        sent := (s.clients i).sent ++ [messageOf i (s.clients i).server] }).send
          (messageOf i (s.clients i).server))
  | print (i : ι) (p : Packet ι) (hpc : (s.clients i).pc = .reply) (hp : p ∈ s.net)
      (hdst : p.dst = .client i) :
      Moves s ((s.drop p).setClient i { s.clients i with
        pc := .send
        server := p.src
        buf := (s.clients i).buf.recv p.data
        exchanges := (s.clients i).exchanges ++
          [⟨(s.clients i).lastTo p.src, p, text ((s.clients i).buf.recv p.data).bytes⟩] })
  | accept (p : Packet ι) (hpc : s.parent.forking = false) (hp : p ∈ s.net)
      (hdst : p.dst = .server) :
      Moves s ((s.drop p).setParent (s.parent.accept p))
  | fork (hpc : s.parent.forking = true) :
      Moves s ((s.setParent s.parent.forked).addChild s.parent)
  | noFork (hpc : s.parent.forking = true) :
      Moves s (s.setParent s.parent.forked)
  | echo (j : Nat) (c : Child ι) (hc : s.children[j]? = some c) (hpc : c.sending = true) :
      Moves s ((s.setChild j { c with sending := false, buf := c.buf.set 0 0 }).send
        ⟨.child j, c.client, c.buf.bytes⟩)
  | hear (j : Nat) (c : Child ι) (p : Packet ι) (hc : s.children[j]? = some c)
      (hpc : c.sending = false) (hp : p ∈ s.net) (hdst : p.dst = .child j) :
      Moves s ((s.drop p).setChild j { c with
        sending := true
        buf := c.buf.recv p.data
        received := c.received ++ [p] })
  | lose (p : Packet ι) : Moves s (s.drop p)

/-- A step of a client is one of its transitions. -/
theorem clientStep_cases {s s' : State ι} {i : ι} {p : Packet ι}
    (h : s.clientStep i p = some s') : Moves s s' := by
  rw [State.clientStep] at h
  cases hpc : (s.clients i).pc with
  | start =>
    rw [hpc] at h
    cases h
    exact .apply i hpc
  | handshake =>
    rw [hpc] at h
    dsimp only at h
    split at h
    · rename_i hp
      cases h
      exact .shake i p hpc hp.1 hp.2
    · cases h
  | send =>
    rw [hpc] at h
    cases h
    exact .ask i hpc
  | reply =>
    rw [hpc] at h
    dsimp only at h
    split at h
    · rename_i hp
      cases h
      exact .print i p hpc hp.1 hp.2
    · cases h

/-- A step of the parent is one of its transitions. -/
theorem parentStep_cases {s s' : State ι} {p : Packet ι} {fork : Bool}
    (h : s.parentStep p fork = some s') : Moves s s' := by
  rw [State.parentStep] at h
  split at h
  · rename_i hpc
    cases fork with
    | true => cases h; exact .fork hpc
    | false => cases h; exact .noFork hpc
  · rename_i hpc
    split at h
    · rename_i hp
      cases h
      exact .accept p (by simpa using hpc) hp.1 hp.2
    · cases h

/-- A step of a child is one of its transitions. -/
theorem childStep_cases {s s' : State ι} {j : Nat} {p : Packet ι}
    (h : s.childStep j p = some s') : Moves s s' := by
  rw [State.childStep] at h
  obtain ⟨c, hc, h⟩ := Option.bind_eq_some_iff.mp h
  split at h
  · rename_i hpc
    cases h
    exact .echo j c hc hpc
  · rename_i hpc
    split at h
    · rename_i hp
      cases h
      exact .hear j c p hc (by simpa using hpc) hp.1 hp.2
    · cases h

/-- A step of the system is one of its transitions. -/
theorem next_cases {s s' : State ι} {l : Label ι} (h : s.next l = some s') : Moves s s' := by
  cases l with
  | client i p => exact clientStep_cases h
  | parent p fork => exact parentStep_cases h
  | child j p => exact childStep_cases h
  | lose p => cases h; exact .lose p

end EltexHomeworks.MultiUserUdpEcho
