import Mathlib.Logic.Function.Basic
import EltexHomeworks.Lib.Descriptors
import EltexHomeworks.Lib.Socket
import EltexHomeworks.Lib.Transition

namespace EltexHomeworks.ServerQueue

open EltexHomeworks.Lib

/-!
# Request queue — main loop, message queue, descriptor table and service threads

`main` waits for a TCP connection or a UDP datagram, forms a request in the one `struct msgbuf` it
has, and puts a copy into the message queue.  Each service thread takes a request out of the queue
into a `struct msgbuf` of its own, looks at its type and answers it.  All of them share the
descriptor table: `accept` of the main loop and `socket` of the threads take numbers from it, and
the `close`s of the threads give them back.

The message queue is a list: `msgsnd` adds a message at its end and `msgrcv`, which asks for any
type, takes the first.  A message is the struct `request` itself; the length given to `msgsnd` and
`msgrcv` also covers the eight bytes behind the struct, and what they do to a thread is the subject
of `Overrun`.

The model ends with the run: a failing call after which `main` exits, and the jump to
`terminating`, are not steps.  The threads are numbered by a type of any size.
-/

/-- The largest descriptor an `int` can hold. -/
def INT_MAX : Nat := 2147483647

def MSG_SIZE : Nat := 80

def TCP_REQUEST : Int := 1

def UDP_REQUEST : Int := 2

def EXIT_SUCCESS : Int := 0

def EXIT_FAILURE : Int := 1

/-- `struct sockaddr_in`: its first four bytes, which are family and port, and the other twelve. -/
structure SockaddrIn where
  familyPort : BitVec 32
  rest : BitVec 96
deriving DecidableEq, Repr

/-- `client_data_t`: a union of an address and a descriptor, which lies over the first four bytes of
    the address. -/
structure ClientData where
  clientAddr : SockaddrIn

namespace ClientData

/-- `data.fd`. -/
def fd (d : ClientData) : Nat := d.clientAddr.familyPort.toNat

/-- `data.fd = fd`: the other bytes of the address stay. -/
def setFd (d : ClientData) (fd : Nat) : ClientData where
  clientAddr := { d.clientAddr with familyPort := .ofNat 32 fd }

/-- A descriptor is read back from the union. -/
theorem fd_setFd (d : ClientData) {fd : Nat} (h : fd ≤ INT_MAX) : (d.setFd fd).fd = fd := by
  have hlt : fd < 4294967296 := Nat.lt_of_le_of_lt h (by decide)
  exact (BitVec.toNat_ofNat ..).trans (Nat.mod_eq_of_lt hlt)

end ClientData

/-- `struct msgbuf`. -/
structure Msgbuf where
  mtype : Int
  mtext : CharArray MSG_SIZE
  data : ClientData

/-- A message with the number of the request it was formed for: the requests are numbered as `main`
    takes them. -/
structure Request where
  id : Nat
  msg : Msgbuf

/-- Where a request came from: a connection of its own, or a datagram from an address. -/
inductive Origin
  | connection
  | address (a : SockaddrIn)
deriving DecidableEq

/-- What a descriptor refers to: a file or socket of the server itself, the connection accepted for
    a request, or a socket a thread opened for a reply. -/
inductive Sock (ω : Type)
  | own
  | connection (r : Nat)
  | sender (w : ω)
deriving DecidableEq

/-- The way a reply took: into the stream behind a descriptor, or to an address. -/
inductive Route (ω : Type)
  | through (sock : Sock ω)
  | to (a : SockaddrIn)

/-- The way of a `sendto` to `a`: the address counts for a socket opened for a reply, and not for a
    connection. -/
def Sock.route {ω : Type} (a : SockaddrIn) : Sock ω → Route ω
  | .sender _ => .to a
  | sock => .through sock

/-- A reply, with the request it was sent for. -/
structure Reply (ω : Type) where
  request : Nat
  route : Route ω
  message : List UInt8

/-- Where `main` is: before `epoll_wait`, `accept`, `recv`, `recvfrom` or `msgsnd`. -/
inductive MainPc
  | wait
  | accept
  | recv (clientSock : Nat)
  | recvfrom
  | msgsnd

/-- Where a service thread is: in one of its states, or inside the servicing of a request. -/
inductive WorkerPc
  | sleep
  | choose
  | workTcp
  | closeTcp (sendSock : Nat)
  | workUdp
  | sendtoUdp (sockSender : Nat) (clientAddr : SockaddrIn)
  | closeUdp (sockSender : Nat)
  | error
  | exited

/-- A service thread, with the request it received last. -/
structure Worker where
  pc : WorkerPc
  request : Request

/-- The server: the main loop, the message queue, the threads, and the descriptors all of them
    share.  The last three fields record what happened, for the statements. -/
structure State (ω : Type) where
  pc : MainPc
  listenSocketTcp : Nat
  listenSocketUdp : Nat
  /-- `triggered.data.fd`; a failed `epoll_wait` leaves it as it was. -/
  triggered : Nat
  request : Request
  fds : Descriptors (Sock ω)
  queue : List Request
  workers : ω → Worker
  /-- The origins of the requests taken so far. -/
  taken : List Origin
  replies : List (Reply ω)
  /-- The requests whose servicing has returned. -/
  serviced : List Nat

variable {ω : Type} [DecidableEq ω]

namespace State

variable (s : State ω)

def setWorker (w : ω) (k : Worker) : State ω :=
  { s with workers := Function.update s.workers w k }

/-- Thread `w` goes on at `pc`. -/
def goto (w : ω) (pc : WorkerPc) : State ω := s.setWorker w { s.workers w with pc := pc }

/-! ### The main loop -/

/-- `epoll_wait`, which returns the event of a descriptor or fails, and the choice that follows. -/
def epollWait (ev : Option Nat) : State ω :=
  let triggered := ev.getD s.triggered
  { s with
    triggered := triggered
    pc :=
      if triggered = s.listenSocketTcp then .accept
      else if triggered = s.listenSocketUdp then .recvfrom
      else .wait }

/-- `accept`: the request is taken, and its descriptor and type are stored. -/
def accept : State ω :=
  let clientSock := s.fds.lowestFree
  { s with
    pc := .recv clientSock
    fds := s.fds.add (.connection s.taken.length)
    taken := s.taken ++ [.connection]
    request :=
      { id := s.taken.length
        msg := { s.request.msg with
          mtype := TCP_REQUEST
          data := s.request.msg.data.setFd clientSock } } }

/-- `recv` from the new connection; its result is not looked at. -/
def recv (r : RecvResult MSG_SIZE) : State ω :=
  { s with
    pc := .msgsnd
    request :=
      { s.request with
        msg := { s.request.msg with mtext := s.request.msg.mtext.recv r.data } } }

/-- `recvfrom`: the request is taken, and its message, type and sender are stored. -/
def recvfrom (d : Datagram MSG_SIZE) (a : SockaddrIn) : State ω :=
  { s with
    pc := .msgsnd
    taken := s.taken ++ [.address a]
    request :=
      { id := s.taken.length
        msg :=
          { mtype := UDP_REQUEST
            mtext := s.request.msg.mtext.recv d.val
            data := { clientAddr := a } } } }

/-- `msgsnd`: a copy of `request` is in the queue. -/
def msgsnd : State ω := { s with pc := .wait, queue := s.queue ++ [s.request] }

/-! ### A service thread -/

/-- The servicing of a request has returned `ret`. -/
def finish (w : ω) (ret : Int) : State ω :=
  if ret = -1 then s.goto w .error
  else { s.goto w .sleep with serviced := s.serviced ++ [(s.workers w).request.id] }

/-- A reply of thread `w`. -/
def reply (w : ω) (route : Route ω) (message : List UInt8) : State ω :=
  { s with replies := s.replies ++ [⟨(s.workers w).request.id, route, message⟩] }

/-- `SLEEP`: `msgrcv`, after whose failure the thread exits. -/
def sleep (w : ω) (ok : Bool) : Option (State ω) :=
  if ok then
    match s.queue with
    | [] => none
    | q :: queue => some ({ s with queue := queue }.setWorker w ⟨.choose, q⟩)
  else some (s.goto w .exited)

/-- `CHOOSE`. -/
def choose (w : ω) : State ω :=
  if (s.workers w).request.msg.mtype = TCP_REQUEST then s.goto w .workTcp
  else if (s.workers w).request.msg.mtype = UDP_REQUEST then s.goto w .workUdp
  else s.goto w .error

/-- `ServicingRequestTCP`, up to its `send`: after a failure the socket stays open. -/
def servicingRequestTCP (w : ω) (ok : Bool) : Option (State ω) :=
  let sendSock := (s.workers w).request.msg.data.fd
  if ok then do
    -- nothing can be sent through a number that is not open
    let sock ← s.fds.get? sendSock
    some ((s.reply w (.through sock) [80, 73, 73, 73, 80, 0]).goto w (.closeTcp sendSock))
  else some (s.finish w EXIT_SUCCESS)

/-- `ServicingRequestUDP`, up to its `socket`. -/
def servicingRequestUDP (w : ω) (ok : Bool) : Option (State ω) :=
  let clientAddr := (s.workers w).request.msg.data.clientAddr
  if ok then
    if s.fds.lowestFree ≤ INT_MAX then
      some ({ s with fds := s.fds.add (.sender w) }.goto w
        (.sendtoUdp s.fds.lowestFree clientAddr))
    else none
  else some (s.finish w EXIT_FAILURE)

/-- Its `sendto`: after a failure the new socket stays open. -/
def sendto (w : ω) (sockSender : Nat) (clientAddr : SockaddrIn) (ok : Bool) :
    Option (State ω) :=
  if ok then do
    let sock ← s.fds.get? sockSender
    some ((s.reply w (sock.route clientAddr) [80, 79, 79, 80, 0]).goto w (.closeUdp sockSender))
  else some (s.finish w EXIT_FAILURE)

/-- The `close` at the end of both. -/
def closeAndReturn (w : ω) (fd : Nat) : State ω :=
  { s with fds := s.fds.close fd }.finish w EXIT_SUCCESS

/-- `ServiceRoutine`: a step of thread `w`; `ok` says whether the call it makes succeeds.  The
    state `ERROR` goes back to `SLEEP`, and a `msgrcv` that fails ends the thread. -/
def serviceRoutine (w : ω) (ok : Bool) : Option (State ω) :=
  match (s.workers w).pc with
  | .sleep => s.sleep w ok
  | .choose => some (s.choose w)
  | .workTcp => s.servicingRequestTCP w ok
  | .closeTcp sendSock => some (s.closeAndReturn w sendSock)
  | .workUdp => s.servicingRequestUDP w ok
  | .sendtoUdp sockSender clientAddr => s.sendto w sockSender clientAddr ok
  | .closeUdp sockSender => some (s.closeAndReturn w sockSender)
  | .error => some (s.goto w .sleep)
  | .exited => none

end State

/-- A step: which call of `main` returns and with what, or which thread goes on. -/
inductive Label (ω : Type)
  | epollWait (ev : Option Nat)
  | accept
  | recv (r : RecvResult MSG_SIZE)
  | recvfrom (d : Datagram MSG_SIZE) (a : SockaddrIn)
  | msgsnd
  | worker (w : ω) (ok : Bool)

/-- The next state; `none` for a step that blocks, or that the thread in question is not at.  A
    step is one system call, with what the source does between it and the next one. -/
def State.next (s : State ω) : Label ω → Option (State ω)
  | .epollWait ev => match s.pc with
    | .wait => some (s.epollWait ev)
    | _ => none
  | .accept => match s.pc with
    | .accept => if s.fds.lowestFree ≤ INT_MAX then some s.accept else none
    | _ => none
  | .recv r => match s.pc with
    | .recv _ => some (s.recv r)
    | _ => none
  | .recvfrom d a => match s.pc with
    | .recvfrom => some (s.recvfrom d a)
    | _ => none
  | .msgsnd => match s.pc with
    | .msgsnd => some s.msgsnd
    | _ => none
  | .worker w ok => s.serviceRoutine w ok

/-- The main loop begins: no request was taken, every thread sleeps, and what is open is the
    server's own. -/
structure Starts (s : State ω) : Prop where
  pc : s.pc = .wait
  queue : s.queue = []
  workers : ∀ w, (s.workers w).pc = .sleep
  fds : ∀ fd sock, s.fds.get? fd = some sock → sock = .own
  taken : s.taken = []
  replies : s.replies = []
  serviced : s.serviced = []

/-- Main loop and service threads. -/
def serverQueue : TransitionSystem (State ω) (Label ω) := .ofStep Starts State.next

end EltexHomeworks.ServerQueue
