import EltexHomeworks.Net.ServerQueue.Locations

namespace EltexHomeworks.ServerQueue

open EltexHomeworks.Lib

/-!
# Request queue — who owns a descriptor

A descriptor in a request is a number, and numbers are given out again.  What keeps it the number of
the request's own connection is that nobody but the thread that has sent the reply closes it:

* `Awaits s q` — request `q` is not answered, and a TCP request's descriptor is still its connection;
* `Service` — the invariant: this holds of the request in the hands of the main loop, of those in the
  queue and of those in the hands of a thread, and a thread that is about to close a descriptor
  closes the connection of its own request, or a socket of its own;
* `Undisturbed s t r` — a step from `s` to `t` does not concern request `r`, the frame condition all
  steps but those of the thread that has `r` meet.
-/

variable {ω : Type}

/-- The way the reply to request `r` has to take. -/
def Origin.route (ω : Type) (r : Nat) : Origin → Route ω
  | .connection => .through (.connection r)
  | .address a => .to a

/-- A reply goes where its request came from. -/
def Reply.Right (s : State ω) (p : Reply ω) : Prop :=
  ∃ o, s.taken[p.request]? = some o ∧ p.route = o.route ω p.request

/-- What is stored in a request leads to where it came from. -/
def Routed (s : State ω) (q : Request) : Prop :=
  q.msg.mtype = TCP_REQUEST ∧ s.taken[q.id]? = some .connection ∧
      s.fds.get? q.msg.data.fd = some (.connection q.id) ∨
    q.msg.mtype = UDP_REQUEST ∧ s.taken[q.id]? = some (.address q.msg.data.clientAddr)

/-- A request that can be answered, and is not yet. -/
structure Awaits (s : State ω) (q : Request) : Prop where
  routed : Routed s q
  unreplied : q.id ∉ s.replies.map Reply.request

/-- What is known of thread `w`, with the request `q`, at each point of its routine: whether the
    request is still to be answered, and what the descriptor it is about to use stands for. -/
def AtPc (s : State ω) (w : ω) (q : Request) : WorkerPc → Prop
  | .sleep => True
  | .choose => Awaits s q
  | .workTcp => Awaits s q ∧ q.msg.mtype = TCP_REQUEST
  | .closeTcp sendSock => s.fds.get? sendSock = some (.connection q.id)
  | .workUdp => Awaits s q ∧ q.msg.mtype = UDP_REQUEST
  | .sendtoUdp sockSender clientAddr =>
    Awaits s q ∧ s.taken[q.id]? = some (.address clientAddr) ∧
      s.fds.get? sockSender = some (.sender w)
  | .closeUdp sockSender => s.fds.get? sockSender = some (.sender w)
  | .error => False
  | .exited => True

/-- **The invariant** over main loop, queue, threads and descriptor table. -/
structure Service (s : State ω) : Prop where
  once : s.Once
  main : s.pc.enqueues = true → Awaits s s.request
  queue : ∀ q ∈ s.queue, Awaits s q
  workers : ∀ w, AtPc s w (s.workers w).request (s.workers w).pc
  replies : (s.replies.map Reply.request).Nodup
  right : ∀ p ∈ s.replies, p.Right s

variable {s t : State ω}

/-- A TCP request that waits is routed to its connection. -/
theorem Awaits.of_tcp {q : Request} (h : Awaits s q) (htype : q.msg.mtype = TCP_REQUEST) :
    s.taken[q.id]? = some .connection ∧ s.fds.get? q.msg.data.fd = some (.connection q.id) := by
  rcases h.routed with ⟨-, hrouted⟩ | ⟨hudp, -⟩
  · exact hrouted
  · rw [htype] at hudp
    exact absurd hudp (by decide)

/-- A UDP request that waits is routed to its sender. -/
theorem Awaits.of_udp {q : Request} (h : Awaits s q) (htype : q.msg.mtype = UDP_REQUEST) :
    s.taken[q.id]? = some (.address q.msg.data.clientAddr) := by
  rcases h.routed with ⟨htcp, -⟩ | ⟨-, hrouted⟩
  · rw [htype] at htcp
    exact absurd htcp (by decide)
  · exact hrouted

/-- A request that is about to be put into the queue, is in it, or is with a thread that has not
    yet called `send`. -/
def State.Pending (s : State ω) (q : Request) : Prop :=
  s.pc = .msgsnd ∧ q = s.request ∨ q ∈ s.queue ∨
    ∃ w, q = (s.workers w).request ∧ ((s.workers w).pc = .choose ∨ (s.workers w).pc = .workTcp)

/-- A request that is pending waits for its reply. -/
theorem Service.awaits (hs : Service s) {q : Request} (h : s.Pending q) : Awaits s q := by
  rcases h with ⟨hpc, rfl⟩ | hq | ⟨w, rfl, hpc⟩
  · exact hs.main (by rw [hpc]; rfl)
  · exact hs.queue q hq
  · have hat := hs.workers w
    rcases hpc with hpc | hpc <;> rw [hpc] at hat
    · exact hat
    · exact hat.1

/-! ### What a step leaves alone -/

/-- A step from `s` to `t` does not concern request `r`: its origin and its connection are as
    before, and it is not replied to. -/
structure Undisturbed (s t : State ω) (r : Nat) : Prop where
  taken : ∀ o, s.taken[r]? = some o → t.taken[r]? = some o
  fds : ∀ fd, s.fds.get? fd = some (.connection r) → t.fds.get? fd = some (.connection r)
  replies : r ∈ t.replies.map Reply.request → r ∈ s.replies.map Reply.request

theorem Awaits.keep {q : Request} (h : Awaits s q) (hu : Undisturbed s t q.id) : Awaits t q where
  routed := by
    rcases h.routed with ⟨htype, htaken, hfd⟩ | ⟨htype, htaken⟩
    · exact .inl ⟨htype, hu.taken _ htaken, hu.fds _ hfd⟩
    · exact .inr ⟨htype, hu.taken _ htaken⟩
  unreplied hr := h.unreplied (hu.replies hr)

/-- A thread whose request and whose sockets a step does not concern. -/
theorem AtPc.keep {w : ω} {q : Request} {pc : WorkerPc} (h : AtPc s w q pc)
    (hu : pc.holds = true → Undisturbed s t q.id)
    (hsender : ∀ fd, s.fds.get? fd = some (.sender w) → t.fds.get? fd = some (.sender w)) :
    AtPc t w q pc := by
  cases pc with
  | sleep => trivial
  | choose => exact Awaits.keep h (hu rfl)
  | workTcp => exact ⟨h.1.keep (hu rfl), h.2⟩
  -- the number to be closed still is that of the connection
  | closeTcp fd => exact (hu rfl).fds fd h
  | workUdp => exact ⟨h.1.keep (hu rfl), h.2⟩
  | sendtoUdp fd a => exact ⟨h.1.keep (hu rfl), (hu rfl).taken _ h.2.1, hsender fd h.2.2⟩
  | closeUdp fd => exact hsender fd h
  | error => exact h
  | exited => trivial

/-- **Steps of the main loop** concern no request that was taken before. -/
theorem Service.mainStep (hs : Service s) (honce : t.Once)
    (hmain : t.pc.enqueues = true → Awaits t t.request)
    (hqueue : ∀ q ∈ t.queue, q ∈ s.queue ∨ Awaits t q) (hworkers : t.workers = s.workers)
    (hreplies : t.replies = s.replies)
    (htaken : ∀ (r : Nat) o, s.taken[r]? = some o → t.taken[r]? = some o)
    (hfds : ∀ fd sock, s.fds.get? fd = some sock → t.fds.get? fd = some sock) : Service t := by
  have hu : ∀ r, Undisturbed s t r := fun r =>
    ⟨htaken r, fun fd => hfds fd _, by rw [hreplies]; exact id⟩
  constructor
  · exact honce
  · exact hmain
  · intro q hq
    rcases hqueue q hq with hq | hq
    · exact (hs.queue q hq).keep (hu q.id)
    · exact hq
  · intro w
    rw [hworkers]
    exact (hs.workers w).keep (fun _ => hu _) fun fd => hfds fd _
  · rw [hreplies]
    exact hs.replies
  · intro p hp
    rw [hreplies] at hp
    obtain ⟨o, ho, hroute⟩ := hs.right p hp
    exact ⟨o, htaken _ o ho, hroute⟩

/-- **Steps of a thread** concern no request but its own, and no socket of another thread. -/
theorem Service.workerStep (hs : Service s) {w : ω} (honce : t.Once) (hpc : t.pc = s.pc)
    (hrequest : t.request = s.request) (hqueue : t.queue ⊆ s.queue)
    (hworkers : ∀ v, v ≠ w → t.workers v = s.workers v)
    (hu : ∀ r, s.occupant (.held w) ≠ some r → Undisturbed s t r)
    (hsender : ∀ v, v ≠ w → ∀ fd, s.fds.get? fd = some (.sender v) →
      t.fds.get? fd = some (.sender v))
    (hw : AtPc t w (t.workers w).request (t.workers w).pc)
    (hreplies : (t.replies.map Reply.request).Nodup) (hright : ∀ p ∈ t.replies, p.Right t) :
    Service t := by
  -- a request at another place is another request
  have hother : ∀ l r, s.occupant l = some r → l ≠ .held w → Undisturbed s t r :=
    fun l r hl hne => hu r fun hheld => hne (hs.once.unique l _ r hl hheld)
  constructor
  · exact honce
  · intro henq
    rw [hpc] at henq
    rw [hrequest]
    exact (hs.main henq).keep (hother .enqueuing _ (occupant_enqueuing henq) fun h => by cases h)
  · intro q hq
    obtain ⟨k, hk⟩ := List.getElem?_of_mem (hqueue hq)
    have hocc : s.occupant (.queued k) = some q.id := by
      rw [State.occupant, hk]
      rfl
    exact (hs.queue q (hqueue hq)).keep (hother _ _ hocc fun h => by cases h)
  · intro v
    by_cases hv : v = w
    · rw [hv]
      exact hw
    -- another thread has another request in its hands, if any
    · rw [hworkers v hv]
      refine (hs.workers v).keep (fun hholds => ?_) (hsender v hv)
      apply hother (.held v) _ (occupant_held hholds)
      exact fun h => hv (Location.held.inj h)
  · exact hreplies
  · exact hright

end EltexHomeworks.ServerQueue
