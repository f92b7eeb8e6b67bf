import Mathlib.Data.List.Nodup
import EltexHomeworks.Net.ServerQueue.Service

namespace EltexHomeworks.ServerQueue

open EltexHomeworks.Lib

/-!
# Request queue — every request is served once and answered where it came from

Each transition keeps `Service`, so it holds in every state that main loop and threads reach
together (`service_of_reachable`).  `wellServed` reads off it that no request is lost, held twice,
answered twice or answered to somebody else.
-/

variable {ω : Type} {s t : State ω}

/-! ### The main loop -/

/-- When the main loop begins there is no request anywhere. -/
theorem service_of_starts (h : Starts s) : Service s := by
  -- a request would be in one of four places
  have hnone : ∀ l, s.occupant l = none := by
    intro l
    cases l with
    | enqueuing => exact occupant_enqueuing_eq_none (by rw [h.pc]; rfl)
    | queued k => rw [State.occupant, h.queue]; rfl
    | held w => exact occupant_held_eq_none (by rw [h.workers w]; rfl)
    | serviced k => rw [State.occupant, h.serviced]; rfl
  constructor
  · constructor
    · intro r hr
      rw [h.taken] at hr
      exact absurd hr (Nat.not_lt_zero r)
    · intro l r hl
      rw [hnone] at hl
      cases hl
    · intro l l' r hl
      rw [hnone] at hl
      cases hl
  · intro henq
    rw [h.pc] at henq
    cases henq
  · intro q hq
    rw [h.queue] at hq
    cases hq
  · intro w
    rw [h.workers w]
    trivial
  · rw [h.replies]
    exact List.nodup_nil
  · intro p hp
    rw [h.replies] at hp
    cases hp

/-- A reply is to a request that was taken. -/
theorem Service.reply_lt (hs : Service s) {r : Nat} (hr : r ∈ s.replies.map Reply.request) :
    r < s.taken.length := by
  obtain ⟨p, hp, rfl⟩ := List.mem_map.mp hr
  obtain ⟨o, ho, -⟩ := hs.right p hp
  exact (List.getElem?_eq_some_iff.mp ho).1

/-- The next request is not answered. -/
theorem Service.next_unreplied (hs : Service s) :
    s.taken.length ∉ s.replies.map Reply.request :=
  fun hr => Nat.lt_irrefl _ (hs.reply_lt hr)

/-- The requests taken before stay as they were. -/
theorem getElem?_append_of_eq_some {α : Type} {l : List α} {r : Nat} {o : α} (a : α)
    (h : l[r]? = some o) : (l ++ [a])[r]? = some o := by
  rw [List.getElem?_append_left (List.getElem?_eq_some_iff.mp h).1, h]

theorem Service.epollWait (hs : Service s) (hpc : s.pc = .wait) (ev : Option Nat) :
    Service (s.epollWait ev) := by
  refine hs.mainStep (hs.once.congr (occupant_epollWait hpc ev)) ?_ (fun q hq => .inl hq) rfl rfl
    (fun _ _ h => h) (fun _ _ h => h)
  intro henq
  rw [enqueues_epollWait] at henq
  cases henq

/-- The new connection is open under the number stored in the request. -/
theorem Service.accept (hs : Service s) (hpc : s.pc = .accept)
    (hfd : s.fds.lowestFree ≤ INT_MAX) : Service s.accept := by
  refine hs.mainStep (once_accept hs.once hpc) ?_ (fun q hq => .inl hq) rfl rfl
    (fun r o h => getElem?_append_of_eq_some Origin.connection h)
    (fun fd sock h => Descriptors.get?_add_of_eq_some _ h)
  intro _
  constructor
  · -- the number goes through the union, which an `int` survives
    refine .inl ⟨rfl, List.getElem?_concat_length, ?_⟩
    show (s.fds.add _).get? (s.request.msg.data.setFd s.fds.lowestFree).fd = _
    rw [ClientData.fd_setFd _ hfd, Descriptors.get?_add_lowestFree]
    rfl
  · exact hs.next_unreplied

theorem Service.recv (hs : Service s) {clientSock : Nat} (hpc : s.pc = .recv clientSock)
    (r : RecvResult MSG_SIZE) : Service (s.recv r) := by
  refine hs.mainStep (hs.once.congr (occupant_recv hpc r)) ?_ (fun q hq => .inl hq) rfl rfl
    (fun _ _ h => h) (fun _ _ h => h)
  -- the message is not what the request is routed by
  intro _
  have hmain := hs.main (by rw [hpc]; rfl)
  exact ⟨hmain.routed, hmain.unreplied⟩

theorem Service.recvfrom (hs : Service s) (hpc : s.pc = .recvfrom) (d : Datagram MSG_SIZE)
    (a : SockaddrIn) : Service (s.recvfrom d a) := by
  refine hs.mainStep (once_recvfrom hs.once hpc d a) ?_ (fun q hq => .inl hq) rfl rfl
    (fun r o h => getElem?_append_of_eq_some _ h) (fun _ _ h => h)
  intro _
  exact ⟨.inr ⟨rfl, List.getElem?_concat_length⟩, hs.next_unreplied⟩

variable [DecidableEq ω]

theorem Service.msgsnd (hs : Service s) (hpc : s.pc = .msgsnd) : Service s.msgsnd := by
  refine hs.mainStep (once_msgsnd hs.once hpc) (fun henq => by cases henq) ?_ rfl rfl
    (fun _ _ h => h) (fun _ _ h => h)
  intro q hq
  rcases List.mem_append.mp hq with hq | hq
  · exact .inl hq
  · rw [List.mem_singleton.mp hq]
    have hmain := hs.main (by rw [hpc]; rfl)
    exact .inr ⟨hmain.routed, hmain.unreplied⟩

/-! ### A service thread -/

variable {w : ω}

/-- The first request of the queue goes to a thread. -/
theorem Service.msgrcv (hs : Service s) {q : Request} {queue : List Request}
    (hpc : (s.workers w).pc = .sleep) (hqueue : s.queue = q :: queue) :
    Service ({ s with queue := queue }.setWorker w ⟨.choose, q⟩) := by
  have hq := hs.queue q (by rw [hqueue]; exact List.mem_cons_self)
  refine hs.workerStep (w := w) (once_msgrcv hs.once hpc hqueue) rfl rfl ?_
    (fun v hv => workers_setWorker_of_ne _ hv _) (fun r _ => ⟨fun _ h => h, fun _ h => h, id⟩)
    (fun _ _ _ h => h) ?_ hs.replies hs.right
  · rw [hqueue]
    exact List.subset_cons_self q queue
  · rw [workers_setWorker_self]
    exact ⟨hq.routed, hq.unreplied⟩

/-- A thread goes on with what it has, and touches nothing that is shared. -/
theorem Service.goto (hs : Service s) {pc : WorkerPc} (hholds : pc.holds = (s.workers w).pc.holds)
    (hpc : AtPc (s.goto w pc) w (s.workers w).request pc) : Service (s.goto w pc) := by
  refine hs.workerStep (w := w) (hs.once.congr (occupant_goto hholds)) rfl rfl (fun _ h => h)
    (fun v hv => workers_setWorker_of_ne _ hv _) (fun r _ => ⟨fun _ h => h, fun _ h => h, id⟩)
    (fun _ _ _ h => h) ?_ hs.replies hs.right
  rw [State.goto, workers_setWorker_self]
  exact hpc

/-- A request has one of the two types: no thread comes to `ERROR`. -/
theorem Service.choose (hs : Service s) (hpc : (s.workers w).pc = .choose) :
    Service (s.choose w) := by
  have hat := hs.workers w
  rw [hpc] at hat
  have hawaits : Awaits s (s.workers w).request := hat
  unfold State.choose
  rcases hawaits.routed with ⟨htype, -⟩ | ⟨htype, -⟩
  · rw [if_pos htype]
    exact hs.goto (by rw [hpc]; rfl) ⟨⟨hawaits.routed, hawaits.unreplied⟩, htype⟩
  · rw [if_neg (by rw [htype]; decide), if_pos htype]
    exact hs.goto (by rw [hpc]; rfl) ⟨⟨hawaits.routed, hawaits.unreplied⟩, htype⟩

/-- A thread that has a request replies to it. -/
theorem Service.reply (hs : Service s) {o : Origin} {pc : WorkerPc} {message : List UInt8}
    (hawaits : Awaits s (s.workers w).request) (hold : (s.workers w).pc.holds = true)
    (hholds : pc.holds = true) (ho : s.taken[(s.workers w).request.id]? = some o)
    (hpc : AtPc ((s.reply w (o.route ω (s.workers w).request.id) message).goto w pc) w
      (s.workers w).request pc) :
    Service ((s.reply w (o.route ω (s.workers w).request.id) message).goto w pc) := by
  have honce : (s.reply w (o.route ω (s.workers w).request.id) message).Once := hs.once
  refine hs.workerStep (w := w)
    (honce.congr (occupant_goto (s := s.reply w _ message) (hholds.trans hold.symm))) rfl rfl
    (fun _ h => h) (fun v hv => workers_setWorker_of_ne _ hv _) ?_ (fun _ _ _ h => h) ?_ ?_ ?_
  · -- the only reply that is new is to the request of the thread
    intro r hr
    rw [occupant_held hold] at hr
    refine ⟨fun _ h => h, fun _ h => h, fun hmem => ?_⟩
    have hmem : r ∈ (s.replies ++ [_]).map Reply.request := hmem
    rw [List.map_append, List.mem_append] at hmem
    rcases hmem with hmem | hmem
    · exact hmem
    · exact absurd (congrArg some (List.mem_singleton.mp hmem).symm) hr
  · rw [State.goto, workers_setWorker_self]
    exact hpc
  · -- its request had no reply before
    show ((s.replies ++ [_]).map Reply.request).Nodup
    rw [List.map_append]
    refine List.nodup_append.mpr ⟨hs.replies, List.nodup_singleton _, ?_⟩
    rintro r hr r' hr' rfl
    rw [List.mem_singleton.mp hr'] at hr
    exact hawaits.unreplied hr
  · intro p hp
    rcases List.mem_append.mp hp with hp | hp
    · exact hs.right p hp
    · rw [List.mem_singleton.mp hp]
      exact ⟨o, ho, rfl⟩

/-- What is open under the descriptor of the request is its own connection. -/
theorem Service.sendTcp (hs : Service s) {sock : Sock ω} {message : List UInt8}
    (hpc : (s.workers w).pc = .workTcp)
    (hsock : s.fds.get? (s.workers w).request.msg.data.fd = some sock) :
    Service ((s.reply w (.through sock) message).goto w
      (.closeTcp (s.workers w).request.msg.data.fd)) := by
  have hat := hs.workers w
  rw [hpc] at hat
  obtain ⟨hawaits, htype⟩ := hat
  obtain ⟨ho, hfd⟩ := hawaits.of_tcp htype
  have heq : sock = .connection (s.workers w).request.id :=
    Option.some.inj (hsock.symm.trans hfd)
  subst heq
  exact hs.reply (o := .connection) hawaits (by rw [hpc]; rfl) rfl ho hfd

/-- The new socket is the thread's own. -/
theorem Service.socket (hs : Service s) (hpc : (s.workers w).pc = .workUdp) :
    Service ({ s with fds := s.fds.add (.sender w) }.goto w
      (.sendtoUdp s.fds.lowestFree (s.workers w).request.msg.data.clientAddr)) := by
  have hat := hs.workers w
  rw [hpc] at hat
  obtain ⟨hawaits, htype⟩ := hat
  have ho := hawaits.of_udp htype
  have hu : ∀ r, Undisturbed s ({ s with fds := s.fds.add (.sender w) }.goto w
      (.sendtoUdp s.fds.lowestFree (s.workers w).request.msg.data.clientAddr)) r := fun r =>
    ⟨fun _ h => h, fun fd h => Descriptors.get?_add_of_eq_some _ h, id⟩
  have honce : State.Once { s with fds := s.fds.add (.sender w) } := hs.once
  refine hs.workerStep (w := w)
    (honce.congr (occupant_goto (s := { s with fds := s.fds.add (.sender w) })
      (by show _ = (s.workers w).pc.holds; rw [hpc]; rfl)))
    rfl rfl (fun _ h => h) (fun v hv => workers_setWorker_of_ne _ hv _) (fun r _ => hu r)
    (fun v _ fd h => Descriptors.get?_add_of_eq_some _ h) ?_ hs.replies hs.right
  rw [State.goto, workers_setWorker_self]
  exact ⟨hawaits.keep (hu _), ho, s.fds.get?_add_lowestFree _⟩

theorem Service.sendtoUdp (hs : Service s) {fd : Nat} {a : SockaddrIn} {sock : Sock ω}
    {message : List UInt8} (hpc : (s.workers w).pc = .sendtoUdp fd a)
    (hsock : s.fds.get? fd = some sock) :
    Service ((s.reply w (sock.route a) message).goto w (.closeUdp fd)) := by
  have hat := hs.workers w
  rw [hpc] at hat
  obtain ⟨hawaits, ho, hfd⟩ := hat
  have heq : sock = .sender w := Option.some.inj (hsock.symm.trans hfd)
  subst heq
  exact hs.reply (o := .address a) hawaits (by rw [hpc]; rfl) rfl ho hfd

/-- The servicing of a request returns, with the descriptors `fds`: the connections of other
    requests and the sockets of other threads must be open as before. -/
theorem Service.finish (hs : Service s) {ret : Int} (hholds : (s.workers w).pc.holds = true)
    (hret : ret ≠ -1) {fds : Descriptors (Sock ω)}
    (hconnection : ∀ r, r ≠ (s.workers w).request.id → ∀ fd,
      s.fds.get? fd = some (.connection r) → fds.get? fd = some (.connection r))
    (hsender : ∀ v, v ≠ w → ∀ fd, s.fds.get? fd = some (.sender v) →
      fds.get? fd = some (.sender v)) :
    Service ({ s with fds := fds }.finish w ret) := by
  have honce : State.Once { s with fds := fds } := hs.once
  have honce' := once_finish (s := { s with fds := fds }) honce hholds hret
  rw [State.finish, if_neg hret] at honce' ⊢
  refine hs.workerStep (w := w) honce' rfl rfl (fun _ h => h)
    (fun v hv => workers_setWorker_of_ne _ hv _) ?_ hsender ?_ hs.replies hs.right
  · intro r hr
    have hne : r ≠ (s.workers w).request.id := by
      rintro rfl
      exact hr (occupant_held hholds)
    exact ⟨fun _ h => h, hconnection r hne, id⟩
  · show AtPc _ w ((State.goto _ w .sleep).workers w).request
      ((State.goto _ w .sleep).workers w).pc
    rw [State.goto, workers_setWorker_self]
    trivial

/-- The number a thread closes is that of its request's connection, or of its own socket. -/
theorem Service.close (hs : Service s) {fd : Nat}
    (hpc : (s.workers w).pc = .closeTcp fd ∨ (s.workers w).pc = .closeUdp fd) :
    Service (s.closeAndReturn w fd) := by
  have hat := hs.workers w
  rcases hpc with hpc | hpc
  · -- a number is open as one thing only, so nobody else's is closed
    rw [hpc] at hat
    have hfd : s.fds.get? fd = some (.connection (s.workers w).request.id) := hat
    apply hs.finish (by rw [hpc]; rfl) (by decide)
    · intro r hr fd' hfd'
      exact Descriptors.get?_close_of_eq_some hfd hfd' fun h => hr (Sock.connection.inj h)
    · intro v _ fd' hfd'
      exact Descriptors.get?_close_of_eq_some hfd hfd' (fun h => by cases h)
  · rw [hpc] at hat
    have hfd : s.fds.get? fd = some (.sender w) := hat
    apply hs.finish (by rw [hpc]; rfl) (by decide)
    · intro r _ fd' hfd'
      exact Descriptors.get?_close_of_eq_some hfd hfd' (fun h => by cases h)
    · intro v hv fd' hfd'
      exact Descriptors.get?_close_of_eq_some hfd hfd' fun h => hv (Sock.sender.inj h)

/-! ### Every interleaving -/

/-- Every transition keeps the invariant. -/
theorem Service.moves (hs : Service s) (h : Moves s t) : Service t := by
  cases h with
  | epollWait ev hpc => exact hs.epollWait hpc ev
  | accept hpc hfd => exact hs.accept hpc hfd
  | recv clientSock r hpc => exact hs.recv hpc r
  | recvfrom d a hpc => exact hs.recvfrom hpc d a
  | msgsnd hpc => exact hs.msgsnd hpc
  | msgrcv w q queue hpc hqueue => exact hs.msgrcv hpc hqueue
  | exit w hpc => exact hs.goto (by rw [hpc]; rfl) trivial
  | choose w hpc => exact hs.choose hpc
  | sendTcp w sock hpc hsock => exact hs.sendTcp hpc hsock
  | socket w hpc => exact hs.socket hpc
  | sendtoUdp w fd a sock hpc hsock => exact hs.sendtoUdp hpc hsock
  | fail w ret hpc =>
    have hboth : (s.workers w).pc.holds = true ∧ ret ≠ -1 := by
      rcases hpc with ⟨hpc, rfl⟩ | ⟨hpc, rfl⟩ | ⟨fd, a, hpc, rfl⟩ <;> rw [hpc] <;>
        exact ⟨rfl, by decide⟩
    exact hs.finish hboth.1 hboth.2 (fun _ _ _ h => h) (fun _ _ _ h => h)
  | close w fd hpc => exact hs.close hpc
  | restart w hpc =>
    have hat := hs.workers w
    rw [hpc] at hat
    exact hat.elim

/-- The invariant holds whatever the interleaving of main loop and threads. -/
theorem service_of_reachable (h : serverQueue.Reachable s) : Service s := by
  have hinv : (serverQueue (ω := ω)).Invariant Service := by
    constructor
    · exact fun s hs => service_of_starts hs
    · exact fun s l t hs h => hs.moves (next_cases h)
  exact hinv.of_reachable h

/-- What the server does with the requests it takes, whatever the order of the steps and whichever
    calls of the threads fail: none is lost or served twice, and no reply goes astray. -/
structure WellServed (s : State ω) : Prop where
  /-- A request taken is at exactly one place: with the main loop, in the queue, with a thread, or
      serviced. -/
  one_place : ∀ r < s.taken.length, ∃! l, s.occupant l = some r
  /-- What is at one of these places is a request taken. -/
  no_other : ∀ l r, s.occupant l = some r → r < s.taken.length
  /-- No request has two replies. -/
  one_reply : (s.replies.map Reply.request).Nodup
  /-- A reply went through the connection of its request, or to the address that sent it. -/
  right : ∀ p ∈ s.replies, p.Right s
  /-- The descriptor of a pending TCP request is the connection accepted for it. -/
  descriptor : ∀ q, s.Pending q → q.msg.mtype = TCP_REQUEST →
    s.fds.get? q.msg.data.fd = some (.connection q.id)
  /-- Two pending TCP requests do not share a descriptor. -/
  distinct : ∀ q q', s.Pending q → s.Pending q' → q.msg.mtype = TCP_REQUEST →
    q'.msg.mtype = TCP_REQUEST → q.msg.data.fd = q'.msg.data.fd → q.id = q'.id
  /-- No thread is in state `ERROR`. -/
  no_error : ∀ w, (s.workers w).pc ≠ .error

/-- **Exactly-once, correctly routed service.**  However many threads there are and however their
    steps and those of the main loop are interleaved, the requests are well served. -/
theorem wellServed (h : serverQueue.Reachable s) : WellServed s := by
  have hs := service_of_reachable h
  have hdescriptor : ∀ q, s.Pending q → q.msg.mtype = TCP_REQUEST →
      s.fds.get? q.msg.data.fd = some (.connection q.id) :=
    fun q hq htype => ((hs.awaits hq).of_tcp htype).2
  constructor
  · exact fun r hr => hs.once.existsUnique hr
  · exact hs.once.known_of_placed
  · exact hs.replies
  · exact hs.right
  · exact hdescriptor
  · intro q q' hq hq' htype htype' heq
    have hfd := hdescriptor q hq htype
    have hfd' := hdescriptor q' hq' htype'
    rw [heq] at hfd
    exact Sock.connection.inj (Option.some.inj (hfd.symm.trans hfd'))
  · intro w hpc
    have hat := hs.workers w
    rw [hpc] at hat
    exact hat

/-- A server with two threads before its loop: six descriptors of its own are open, the listening
    sockets as 3 and 4. -/
def idle : State Bool where
  pc := .wait
  listenSocketTcp := 3
  listenSocketUdp := 4
  triggered := 0
  request := ⟨0, 0, ⟨List.replicate MSG_SIZE 0, List.length_replicate⟩, ⟨0, 0⟩⟩
  fds := ⟨List.replicate 6 (some .own)⟩
  queue := []
  workers _ := ⟨.sleep, 0, 0, ⟨List.replicate MSG_SIZE 0, List.length_replicate⟩, ⟨0, 0⟩⟩
  taken := []
  replies := []
  serviced := []

theorem starts_idle : Starts idle where
  pc := rfl
  queue := rfl
  workers _ := rfl
  fds fd sock h := by
    have h : (List.replicate 6 (some Sock.own)).getD fd none = some sock := h
    rw [List.getD_eq_getElem?_getD, List.getElem?_replicate] at h
    split at h
    · exact (Option.some.inj h).symm
    · cases h
  taken := rfl
  replies := rfl
  serviced := rfl

/-- A connection and a datagram are served, and the next connection gets the number the first one
    had. -/
theorem wellServed_after_two :
    ∃ s, Lib.run State.next idle
        [.epollWait (some 3), .accept, .recv .endOfStream, .msgsnd, .worker true true,
          .epollWait (some 4), .recvfrom ⟨[72, 105], by decide⟩ ⟨2, 1⟩, .worker true true, .msgsnd,
          .worker false true, .worker true true, .worker false true, .worker true true,
          .worker false true, .worker false true, .worker false true,
          .epollWait (some 3), .accept, .recv .endOfStream, .msgsnd] = some s ∧
      s.serviced = [0, 1] ∧ s.queue.map (fun q => q.msg.data.fd) = [6] ∧ WellServed s := by
  have hrun : (Lib.run State.next idle
      [.epollWait (some 3), .accept, .recv .endOfStream, .msgsnd, .worker true true,
        .epollWait (some 4), .recvfrom ⟨[72, 105], by decide⟩ ⟨2, 1⟩, .worker true true, .msgsnd,
        .worker false true, .worker true true, .worker false true, .worker true true,
        .worker false true, .worker false true, .worker false true,
        .epollWait (some 3), .accept, .recv .endOfStream, .msgsnd]).map
      (fun s => (s.serviced, s.queue.map fun q => q.msg.data.fd)) = some ([0, 1], [6]) := by
    decide +kernel
  obtain ⟨s, hs, heq⟩ := Option.map_eq_some_iff.mp hrun
  obtain ⟨hserviced, hqueue⟩ := Prod.mk.inj heq
  exact ⟨s, hs, hserviced, hqueue,
    wellServed (TransitionSystem.Reachable.run (.init starts_idle) hs)⟩

end EltexHomeworks.ServerQueue
