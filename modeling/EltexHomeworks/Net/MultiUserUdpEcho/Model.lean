import Mathlib.Data.Multiset.AddSub
import Mathlib.Logic.Function.Basic
import EltexHomeworks.Lib.Socket
import EltexHomeworks.Lib.Transition

namespace EltexHomeworks.MultiUserUdpEcho

open EltexHomeworks.Lib

/-!
# Multi-user UDP echo — parent, children, clients and the datagrams in flight

A client sends an application to the server, learns the address of its child from the source of the
first datagram it receives, and then exchanges messages with that address.  The parent receives
applications with one `client` address and one buffer for all, and forks a child for each; a child
has the copies of both made by `fork` and a socket of its own.

The network is a multiset of datagrams: any of them may be delivered next, or lost.  `udpEcho` is
the system under every interleaving of parent, children, clients and network; the clients are
numbered by a type of any size.  All socket calls succeed; `fork` may fail.
-/

/-- The size of the buffers of server and client. -/
def BUF_SIZE : Nat := 500

/-- `application`: `Pls, give me new process` with its NUL. -/
def application : List UInt8 :=
  [80, 108, 115, 44, 32, 103, 105, 118, 101, 32, 109, 101, 32, 110, 101, 119, 32, 112, 114, 111, 99,
    101, 115, 115, 0]

/-- `data_to_send`: `Hi!` with its NUL. -/
def dataToSend : List UInt8 := [72, 105, 33, 0]

/-- The addresses of sockets; `zero` is what `memset` leaves. -/
inductive Addr (ι : Type)
  | zero
  | server
  | client (i : ι)
  | child (j : Nat)
deriving DecidableEq

/-- A datagram. -/
structure Packet (ι : Type) where
  src : Addr ι
  dst : Addr ι
  data : List UInt8
deriving DecidableEq

/-- Where a client is: before its application, before the first datagram, or in its loop. -/
inductive ClientPc
  | start
  | handshake
  | send
  | reply
deriving DecidableEq, Repr

/-- A turn of the loop of a client: what it received, what it had last sent to the sender of that,
    and what it printed. -/
structure Exchange (ι : Type) where
  asked : Option (Packet ι)
  answer : Packet ι
  printed : Str

/-- A client, with the datagrams it has sent and the turns of its loop so far. -/
structure Client (ι : Type) where
  pc : ClientPc
  server : Addr ι
  buf : CharArray BUF_SIZE
  sent : List (Packet ι)
  exchanges : List (Exchange ι)

/-- What a client sent last to `dst`. -/
def Client.lastTo {ι : Type} [DecidableEq ι] (c : Client ι) (dst : Addr ι) : Option (Packet ι) :=
  (c.sent.filter (·.dst = dst)).getLast?

/-- The parent, before `recvfrom` or before `fork`; `last` is the datagram it received last. -/
structure Parent (ι : Type) where
  forking : Bool
  client : Addr ι
  buf : CharArray BUF_SIZE
  last : Option (Packet ι)

namespace Parent

variable {ι : Type} (q : Parent ι)

/-- The parent after a `recvfrom` that returned `p`. -/
def accept (p : Packet ι) : Parent ι where
  forking := true
  client := p.src
  buf := q.buf.recv p.data
  last := some p

/-- The parent after `fork`: its address and its buffer stay as they are. -/
def forked : Parent ι := { q with forking := false }

end Parent

/-- A child, before `sendto` or before `recvfrom`, with the datagram the parent had received last
    when it forked, and the datagrams the child has received. -/
structure Child (ι : Type) where
  sending : Bool
  client : Addr ι
  buf : CharArray BUF_SIZE
  last : Option (Packet ι)
  received : List (Packet ι)

/-- All processes and the datagrams in flight. -/
structure State (ι : Type) where
  clients : ι → Client ι
  parent : Parent ι
  /-- The children in the order of their forks; `child j` is the address of the socket of the
      `j`-th. -/
  children : List (Child ι)
  net : Multiset (Packet ι)

variable {ι : Type} [DecidableEq ι]

namespace State

variable (s : State ι)

/-- A datagram is on its way. -/
def send (p : Packet ι) : State ι := { s with net := p ::ₘ s.net }

/-- A datagram is gone. -/
def drop (p : Packet ι) : State ι := { s with net := s.net.erase p }

def setClient (i : ι) (c : Client ι) : State ι :=
  { s with clients := Function.update s.clients i c }

def setParent (q : Parent ι) : State ι := { s with parent := q }

def setChild (j : Nat) (c : Child ι) : State ι := { s with children := s.children.set j c }

/-- A new child, with the copies of the address and the buffer of the parent made by `fork`. -/
def addChild (q : Parent ι) : State ι :=
  { s with children := s.children ++ [⟨true, q.client, q.buf, q.last, []⟩] }

/-- A step of client `i`; `p` is the datagram it receives, if it receives one.  Whoever sent it,
    the next message goes there: `recvfrom` overwrites the address of the server. -/
def clientStep (i : ι) (p : Packet ι) : Option (State ι) :=
  let c := s.clients i
  match c.pc with
  | .start =>
    let q : Packet ι := ⟨.client i, .server, application⟩
    some ((s.setClient i { c with pc := .handshake, sent := c.sent ++ [q] }).send q)
  | .handshake =>
    -- the length of the buffer is 0: only the source is kept
    if p ∈ s.net ∧ p.dst = .client i then
      some ((s.drop p).setClient i { c with pc := .send, server := p.src })
    else none
  | .send =>
    let q : Packet ι := ⟨.client i, c.server, dataToSend⟩
    some ((s.setClient i { c with pc := .reply, sent := c.sent ++ [q] }).send q)
  | .reply =>
    if p ∈ s.net ∧ p.dst = .client i then
      let buf := c.buf.recv p.data
      some ((s.drop p).setClient i
        { c with
          pc := .send
          server := p.src
          buf := buf
          exchanges := c.exchanges ++ [⟨c.lastTo p.src, p, text buf.bytes⟩] })
    else none

/-- A step of the parent; `fork` says whether `fork` succeeds. -/
def parentStep (p : Packet ι) (fork : Bool) : Option (State ι) :=
  if s.parent.forking then
    let t := s.setParent s.parent.forked
    if fork then some (t.addChild s.parent)
    -- a failed `fork` is reported, and the parent waits for the next datagram
    else some t
  else if p ∈ s.net ∧ p.dst = .server then
    some ((s.drop p).setParent (s.parent.accept p))
  else none

/-- A step of child `j`, which serves one client: it waits for a datagram on a socket of its own
    and sends its whole buffer back, to the address its parent had at the fork. -/
def childStep (j : Nat) (p : Packet ι) : Option (State ι) := do
  let c ← s.children[j]?
  if c.sending then
    -- the whole buffer is sent, and its first byte cleared before the next `recvfrom`
    some ((s.setChild j { c with sending := false, buf := c.buf.set 0 0 }).send
      ⟨.child j, c.client, c.buf.bytes⟩)
  else if p ∈ s.net ∧ p.dst = .child j then
    some ((s.drop p).setChild j
      { c with sending := true, buf := c.buf.recv p.data, received := c.received ++ [p] })
  else none

end State

/-- A step: whose it is, with the datagram that is received or lost. -/
inductive Label (ι : Type)
  | client (i : ι) (p : Packet ι)
  | parent (p : Packet ι) (fork : Bool)
  | child (j : Nat) (p : Packet ι)
  | lose (p : Packet ι)

/-- The next state; `none` for a step that blocks. -/
def State.next (s : State ι) : Label ι → Option (State ι)
  | .client i p => s.clientStep i p
  | .parent p fork => s.parentStep p fork
  | .child j p => s.childStep j p
  | .lose p => some (s.drop p)

/-- The server waits for its first datagram, and no client has sent one.  `buf` is the buffer of
    the parent and `bufs` those of the clients, as they lie on the stacks. -/
def State.start (buf : CharArray BUF_SIZE) (bufs : ι → CharArray BUF_SIZE) : State ι where
  clients i := ⟨.start, .server, bufs i, [], []⟩
  parent := ⟨false, .zero, buf, none⟩
  children := []
  net := 0

/-- Server and clients. -/
def udpEcho (buf : CharArray BUF_SIZE) (bufs : ι → CharArray BUF_SIZE) :
    TransitionSystem (State ι) (Label ι) :=
  .ofStep (· = State.start buf bufs) State.next

end EltexHomeworks.MultiUserUdpEcho
