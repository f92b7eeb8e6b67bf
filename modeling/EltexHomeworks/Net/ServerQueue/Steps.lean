import EltexHomeworks.Net.ServerQueue.Model

namespace EltexHomeworks.ServerQueue

open EltexHomeworks.Lib

/-!
# Request queue — what a step can do

`Moves` lists the transitions of main loop and threads, each with its guard; `next_cases` says that a
step is one of them.  A call of a thread that fails is a transition of its own, since what follows
differs: the thread exits, or the request counts as serviced.

`ThreadMoves` are those of one thread, which leave the main loop and the other threads alone
(`ThreadMoves.frame`); a step of the main loop is given by its call (`next_accept` and the like).
-/

variable {ω : Type}

/-- What a thread leaves alone: the main loop, what was taken, and the other threads. -/
structure ThreadFrame (s : State ω) (w : ω) (t : State ω) : Prop where
  pc : t.pc = s.pc
  listenSocketTcp : t.listenSocketTcp = s.listenSocketTcp
  listenSocketUdp : t.listenSocketUdp = s.listenSocketUdp
  triggered : t.triggered = s.triggered
  request : t.request = s.request
  taken : t.taken = s.taken
  workers : ∀ v, v ≠ w → t.workers v = s.workers v

theorem ThreadFrame.refl (s : State ω) (w : ω) : ThreadFrame s w s :=
  ⟨rfl, rfl, rfl, rfl, rfl, rfl, fun _ _ => rfl⟩

/-- A thread may change the queue, the descriptors and the replies. -/
theorem ThreadFrame.queue (s : State ω) (w : ω) (queue : List Request) :
    ThreadFrame s w { s with queue := queue } :=
  ⟨rfl, rfl, rfl, rfl, rfl, rfl, fun _ _ => rfl⟩

theorem ThreadFrame.fds (s : State ω) (w : ω) (fds : Descriptors (Sock ω)) :
    ThreadFrame s w { s with fds := fds } :=
  ⟨rfl, rfl, rfl, rfl, rfl, rfl, fun _ _ => rfl⟩

theorem ThreadFrame.reply (s : State ω) (w : ω) (route : Route ω) (message : List UInt8) :
    ThreadFrame s w (s.reply w route message) :=
  ⟨rfl, rfl, rfl, rfl, rfl, rfl, fun _ _ => rfl⟩

variable [DecidableEq ω]

/-- The transitions of the server: those of the main loop, and those of a thread `w`.  A call that
    fails is a transition of its own where the source looks at the result. -/
inductive Moves (s : State ω) : State ω → Prop
  | epollWait (ev : Option Nat) (hpc : s.pc = .wait) : Moves s (s.epollWait ev)
  | accept (hpc : s.pc = .accept) (hfd : s.fds.lowestFree ≤ INT_MAX) : Moves s s.accept
  | recv (clientSock : Nat) (r : RecvResult MSG_SIZE) (hpc : s.pc = .recv clientSock) :
      Moves s (s.recv r)
  | recvfrom (d : Datagram MSG_SIZE) (a : SockaddrIn) (hpc : s.pc = .recvfrom) :
      Moves s (s.recvfrom d a)
  | msgsnd (hpc : s.pc = .msgsnd) : Moves s s.msgsnd
  | msgrcv (w : ω) (q : Request) (queue : List Request) (hpc : (s.workers w).pc = .sleep)
      (hqueue : s.queue = q :: queue) :
      Moves s ({ s with queue := queue }.setWorker w ⟨.choose, q⟩)
  | exit (w : ω) (hpc : (s.workers w).pc = .sleep) : Moves s (s.goto w .exited)
  | choose (w : ω) (hpc : (s.workers w).pc = .choose) : Moves s (s.choose w)
  | sendTcp (w : ω) (sock : Sock ω) (hpc : (s.workers w).pc = .workTcp)
      (hsock : s.fds.get? (s.workers w).request.msg.data.fd = some sock) :
      Moves s ((s.reply w (.through sock) [80, 73, 73, 73, 80, 0]).goto w
        (.closeTcp (s.workers w).request.msg.data.fd))
  | socket (w : ω) (hpc : (s.workers w).pc = .workUdp) :
      Moves s ({ s with fds := s.fds.add (.sender w) }.goto w
        (.sendtoUdp s.fds.lowestFree (s.workers w).request.msg.data.clientAddr))
  | sendtoUdp (w : ω) (fd : Nat) (a : SockaddrIn) (sock : Sock ω)
      (hpc : (s.workers w).pc = .sendtoUdp fd a) (hsock : s.fds.get? fd = some sock) :
      Moves s ((s.reply w (sock.route a) [80, 79, 79, 80, 0]).goto w (.closeUdp fd))
  | fail (w : ω) (ret : Int)
      (hpc : (s.workers w).pc = .workTcp ∧ ret = EXIT_SUCCESS ∨
        (s.workers w).pc = .workUdp ∧ ret = EXIT_FAILURE ∨
        ∃ fd a, (s.workers w).pc = .sendtoUdp fd a ∧ ret = EXIT_FAILURE) :
      Moves s (s.finish w ret)
  | close (w : ω) (fd : Nat)
      (hpc : (s.workers w).pc = .closeTcp fd ∨ (s.workers w).pc = .closeUdp fd) :
      Moves s (s.closeAndReturn w fd)
  | restart (w : ω) (hpc : (s.workers w).pc = .error) : Moves s (s.goto w .sleep)

/-- The transitions of thread `w` alone, with the outcome of the call it makes; where nothing can
    fail, or the source does not look at the result, the transition is there for both. -/
inductive ThreadMoves (s : State ω) (w : ω) : Bool → State ω → Prop
  | msgrcv (q : Request) (queue : List Request) (hpc : (s.workers w).pc = .sleep)
      (hqueue : s.queue = q :: queue) :
      ThreadMoves s w true ({ s with queue := queue }.setWorker w ⟨.choose, q⟩)
  | exit (hpc : (s.workers w).pc = .sleep) : ThreadMoves s w false (s.goto w .exited)
  | choose (ok : Bool) (hpc : (s.workers w).pc = .choose) : ThreadMoves s w ok (s.choose w)
  | sendTcp (sock : Sock ω) (hpc : (s.workers w).pc = .workTcp)
      (hsock : s.fds.get? (s.workers w).request.msg.data.fd = some sock) :
      ThreadMoves s w true ((s.reply w (.through sock) [80, 73, 73, 73, 80, 0]).goto w
        (.closeTcp (s.workers w).request.msg.data.fd))
  | socket (hpc : (s.workers w).pc = .workUdp) :
      ThreadMoves s w true ({ s with fds := s.fds.add (.sender w) }.goto w
        (.sendtoUdp s.fds.lowestFree (s.workers w).request.msg.data.clientAddr))
  | sendtoUdp (fd : Nat) (a : SockaddrIn) (sock : Sock ω)
      (hpc : (s.workers w).pc = .sendtoUdp fd a) (hsock : s.fds.get? fd = some sock) :
      ThreadMoves s w true ((s.reply w (sock.route a) [80, 79, 79, 80, 0]).goto w (.closeUdp fd))
  | fail (ret : Int)
      (hpc : (s.workers w).pc = .workTcp ∧ ret = EXIT_SUCCESS ∨
        (s.workers w).pc = .workUdp ∧ ret = EXIT_FAILURE ∨
        ∃ fd a, (s.workers w).pc = .sendtoUdp fd a ∧ ret = EXIT_FAILURE) :
      ThreadMoves s w false (s.finish w ret)
  | close (ok : Bool) (fd : Nat)
      (hpc : (s.workers w).pc = .closeTcp fd ∨ (s.workers w).pc = .closeUdp fd) :
      ThreadMoves s w ok (s.closeAndReturn w fd)
  | restart (ok : Bool) (hpc : (s.workers w).pc = .error) : ThreadMoves s w ok (s.goto w .sleep)

variable {s t : State ω}

/-! ### A service thread -/

/-- A step of a thread is one of its transitions. -/
theorem serviceRoutine_eq_some {w : ω} {ok : Bool} (h : s.serviceRoutine w ok = some t) :
    ThreadMoves s w ok t := by
  unfold State.serviceRoutine at h
  cases hpc : (s.workers w).pc with
  | sleep =>
    rw [hpc] at h
    -- a failing `msgrcv` ends the thread, and with an empty queue it blocks
    cases ok with
    | false => cases h; exact .exit hpc
    | true =>
      cases hqueue : s.queue with
      | nil => simp [State.sleep, hqueue] at h
      | cons q queue =>
        simp only [State.sleep, hqueue, if_true, Option.some.injEq] at h
        subst h
        exact .msgrcv q queue hpc hqueue
  | choose => rw [hpc] at h; cases h; exact .choose ok hpc
  | workTcp =>
    rw [hpc] at h
    -- the failures of the three calls are one transition with different return values
    cases ok with
    | false => cases h; exact .fail _ (.inl ⟨hpc, rfl⟩)
    | true =>
      obtain ⟨sock, hsock, h⟩ := Option.bind_eq_some_iff.mp h
      cases h
      exact .sendTcp sock hpc hsock
  | closeTcp fd => rw [hpc] at h; cases h; exact .close ok fd (.inl hpc)
  | workUdp =>
    rw [hpc] at h
    cases ok with
    | false => cases h; exact .fail _ (.inr (.inl ⟨hpc, rfl⟩))
    | true =>
      simp only [State.servicingRequestUDP, if_true] at h
      split at h
      · cases h; exact .socket hpc
      · cases h
  | sendtoUdp fd a =>
    rw [hpc] at h
    cases ok with
    | false => cases h; exact .fail _ (.inr (.inr ⟨fd, a, hpc, rfl⟩))
    | true =>
      obtain ⟨sock, hsock, h⟩ := Option.bind_eq_some_iff.mp h
      cases h
      exact .sendtoUdp fd a sock hpc hsock
  | closeUdp fd => rw [hpc] at h; cases h; exact .close ok fd (.inr hpc)
  | error => rw [hpc] at h; cases h; exact .restart ok hpc
  | exited => rw [hpc] at h; cases h

/-- A transition of a thread is one of the server. -/
theorem ThreadMoves.moves {w : ω} {ok : Bool} (h : ThreadMoves s w ok t) : Moves s t := by
  cases h with
  | msgrcv q queue hpc hqueue => exact .msgrcv w q queue hpc hqueue
  | exit hpc => exact .exit w hpc
  | choose ok hpc => exact .choose w hpc
  | sendTcp sock hpc hsock => exact .sendTcp w sock hpc hsock
  | socket hpc => exact .socket w hpc
  | sendtoUdp fd a sock hpc hsock => exact .sendtoUdp w fd a sock hpc hsock
  | fail ret hpc => exact .fail w ret hpc
  | close ok fd hpc => exact .close w fd hpc
  | restart ok hpc => exact .restart w hpc

theorem ThreadFrame.setWorker {w : ω} (h : ThreadFrame s w t) (k : Worker) :
    ThreadFrame s w (t.setWorker w k) :=
  ⟨h.pc, h.listenSocketTcp, h.listenSocketUdp, h.triggered, h.request, h.taken,
    fun v hv => (Function.update_of_ne hv ..).trans (h.workers v hv)⟩

theorem ThreadFrame.finish {w : ω} (h : ThreadFrame s w t) (ret : Int) :
    ThreadFrame s w (t.finish w ret) := by
  have hsleep := h.setWorker { t.workers w with pc := .sleep }
  unfold State.finish
  split
  · exact h.setWorker _
  · exact ⟨hsleep.pc, hsleep.listenSocketTcp, hsleep.listenSocketUdp, hsleep.triggered,
      hsleep.request, hsleep.taken, hsleep.workers⟩

theorem ThreadMoves.frame {w : ω} {ok : Bool} (h : ThreadMoves s w ok t) : ThreadFrame s w t := by
  have hs := ThreadFrame.refl s w
  cases h with
  | msgrcv q queue hpc hqueue => exact (ThreadFrame.queue s w queue).setWorker _
  | exit hpc => exact hs.setWorker _
  | choose ok hpc =>
    unfold State.choose
    split
    · exact hs.setWorker _
    · split <;> exact hs.setWorker _
  | sendTcp sock hpc hsock => exact (ThreadFrame.reply s w _ _).setWorker _
  | socket hpc => exact (ThreadFrame.fds s w _).setWorker _
  | sendtoUdp fd a sock hpc hsock => exact (ThreadFrame.reply s w _ _).setWorker _
  | fail ret hpc => exact hs.finish ret
  | close ok fd hpc => exact (ThreadFrame.fds s w _).finish _
  | restart ok hpc => exact hs.setWorker _

/-- A thread is about to call `send`, `socket` or `sendto`. -/
def WorkerPc.Calls (pc : WorkerPc) : Prop :=
  pc = .workTcp ∨ pc = .workUdp ∨ ∃ sockSender clientAddr, pc = .sendtoUdp sockSender clientAddr

/-- This call of thread `w` fails: the reply to its request is not sent. -/
def State.CallFails (s : State ω) (w : ω) (l : Label ω) : Prop :=
  l = .worker w false ∧ (s.workers w).pc.Calls

/-- Whichever call fails, the helper does not return `-1`. -/
theorem State.CallFails.next {w : ω} {l : Label ω} (h : s.CallFails w l) :
    ∃ ret, ret ≠ -1 ∧ s.next l = some (s.finish w ret) := by
  obtain ⟨rfl, hpc | hpc | ⟨fd, a, hpc⟩⟩ := h
  · exact ⟨EXIT_SUCCESS, by decide,
      by simp [State.next, serviceRoutine, servicingRequestTCP, hpc]⟩
  · exact ⟨EXIT_FAILURE, by decide,
      by simp [State.next, serviceRoutine, servicingRequestUDP, hpc]⟩
  · exact ⟨EXIT_FAILURE, by decide, by simp [State.next, serviceRoutine, sendto, hpc]⟩

/-! ### The main loop -/

theorem next_epollWait {ev : Option Nat} :
    s.next (.epollWait ev) = some t ↔ s.pc = .wait ∧ t = s.epollWait ev := by
  cases hpc : s.pc <;> simp [State.next, hpc, eq_comm]

theorem next_accept :
    s.next .accept = some t ↔ s.pc = .accept ∧ s.fds.lowestFree ≤ INT_MAX ∧ t = s.accept := by
  cases hpc : s.pc <;> simp [State.next, hpc, eq_comm]

theorem next_recv {r : RecvResult MSG_SIZE} :
    s.next (.recv r) = some t ↔ (∃ clientSock, s.pc = .recv clientSock) ∧ t = s.recv r := by
  cases hpc : s.pc <;> simp [State.next, hpc, eq_comm]

theorem next_recvfrom {d : Datagram MSG_SIZE} {a : SockaddrIn} :
    s.next (.recvfrom d a) = some t ↔ s.pc = .recvfrom ∧ t = s.recvfrom d a := by
  cases hpc : s.pc <;> simp [State.next, hpc, eq_comm]

theorem next_msgsnd : s.next .msgsnd = some t ↔ s.pc = .msgsnd ∧ t = s.msgsnd := by
  cases hpc : s.pc <;> simp [State.next, hpc, eq_comm]

/-- A step of the server is one of its transitions. -/
theorem next_cases {l : Label ω} (h : s.next l = some t) : Moves s t := by
  cases l with
  | worker w ok => exact (serviceRoutine_eq_some h).moves
  | epollWait ev =>
    obtain ⟨hpc, rfl⟩ := next_epollWait.mp h
    exact .epollWait ev hpc
  | accept =>
    obtain ⟨hpc, hfd, rfl⟩ := next_accept.mp h
    exact .accept hpc hfd
  | recv r =>
    obtain ⟨⟨clientSock, hpc⟩, rfl⟩ := next_recv.mp h
    exact .recv clientSock r hpc
  | recvfrom d a =>
    obtain ⟨hpc, rfl⟩ := next_recvfrom.mp h
    exact .recvfrom d a hpc
  | msgsnd =>
    obtain ⟨hpc, rfl⟩ := next_msgsnd.mp h
    exact .msgsnd hpc

end EltexHomeworks.ServerQueue
