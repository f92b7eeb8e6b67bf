import EltexHomeworks.Net.ServerQueue.Fifo
import Mathlib.Data.Fintype.Card

namespace EltexHomeworks.ServerQueue

open EltexHomeworks.Lib

/-!
# Request queue — what lies behind `request`

The length that `msgsnd` and `msgrcv` are given, `sizeof(request)`, counts `mtype` too, which they
do not.  So `msgsnd` sends along the eight bytes behind the `request` of `main`, and `msgrcv` writes
them behind the `request` of the thread.  What lies there is up to the compiler (`Behind`): if it is
`msqfd`, then the thread has lost its queue after its first request, its next `msgrcv` fails, and it
exits; nobody creates another one.

`Frames` is the server with the threads that have lost their queue.

* `exists_answered` — a thread that can still receive replies to the next request in the queue;
* `drains_iff` — when all the requests in the queue can be answered: if one thread is left, or, with
  `msqfd` behind `request`, only if there are as many threads left as requests.
-/

variable {ω : Type} {s t : State ω}

/-! ### A thread behind its `msgrcv` -/

section Serve

variable [DecidableEq ω]

/-- Thread `w` goes on up to its next `SLEEP`; its call succeeds. -/
def State.serve (w : ω) (s : State ω) (_ : Unit) : Option (State ω) :=
  match (s.workers w).pc with
  | .sleep => none
  | _ => s.serviceRoutine w true

theorem State.serve_eq {w : ω} (hpc : (s.workers w).pc ≠ .sleep) :
    s.serve w () = s.serviceRoutine w true := by
  unfold State.serve
  split
  · rename_i hsleep
    exact absurd hsleep hpc
  · rfl

/-- Where it goes on it has not been asleep. -/
theorem State.serve_eq_some {w : ω} {u : Unit} (h : s.serve w u = some t) :
    (s.workers w).pc ≠ .sleep ∧ s.serviceRoutine w true = some t := by
  have hpc : (s.workers w).pc ≠ .sleep := by
    intro hsleep
    rw [State.serve, hsleep] at h
    cases h
  exact ⟨hpc, (State.serve_eq hpc).symm.trans h⟩

/-- Thread `w` comes from `s` to its next `SLEEP` in `t`, and takes nothing out of the queue. -/
structure Finishes (s : State ω) (w : ω) (t : State ω) : Prop where
  leads : Leads (State.serve w) s t
  sleeps : (t.workers w).pc = .sleep
  queue : t.queue = s.queue
  free : t.fds.lowestFree ≤ INT_MAX
  replies : s.replies.map Reply.request ⊆ t.replies.map Reply.request

variable {w : ω}

/-- One step of the thread in front. -/
theorem Finishes.cons {u : State ω} (hst : s.serve w () = some u)
    (hqueue : u.queue = s.queue)
    (hreplies : s.replies.map Reply.request ⊆ u.replies.map Reply.request)
    (h : Finishes u w t) : Finishes s w t where
  leads := (Leads.of_next hst).trans h.leads
  sleeps := h.sleeps
  queue := h.queue.trans hqueue
  free := h.free
  replies := fun _ hr => h.replies (hreplies hr)

/-- Thread `w` replies to the request it has, and comes to its next `SLEEP`. -/
def State.RepliesAt (s : State ω) (w : ω) : Prop :=
  ∃ t, Finishes s w t ∧ (s.workers w).request.id ∈ t.replies.map Reply.request

theorem pc_goto (s : State ω) (w : ω) (pc : WorkerPc) : ((s.goto w pc).workers w).pc = pc :=
  congrArg Worker.pc (workers_setWorker_self ..)

theorem request_goto (s : State ω) (w : ω) (pc : WorkerPc) :
    ((s.goto w pc).workers w).request = (s.workers w).request := by
  rw [State.goto, workers_setWorker_self]

/-- The thread closes a descriptor. -/
theorem finishes_of_close {fd : Nat}
    (hpc : (s.workers w).pc = .closeTcp fd ∨ (s.workers w).pc = .closeUdp fd)
    (hfd : fd ≤ INT_MAX ∨ s.fds.lowestFree ≤ INT_MAX) :
    ∃ t, Finishes s w t := by
  have hst : s.serve w () = some (s.closeAndReturn w fd) := by
    rcases hpc with hpc | hpc <;> rw [State.serve_eq (by simp [hpc]), State.serviceRoutine, hpc]
  have hclose := Descriptors.lowestFree_close_le (t := s.fds) fd
  rw [State.closeAndReturn, State.finish, if_neg (by decide)] at hst
  refine ⟨_, .of_next hst, ?_, rfl, ?_, fun _ hr => hr⟩
  · exact pc_goto _ w .sleep
  · show (s.fds.close fd).lowestFree ≤ INT_MAX
    omega

/-- A thread with a reply of its own, whatever it has sent it through. -/
theorem State.RepliesAt.of_reply {route : Route ω} {message : List UInt8} {pc : WorkerPc}
    (hst : s.serve w () = some ((s.reply w route message).goto w pc))
    (h : ∃ t, Finishes ((s.reply w route message).goto w pc) w t) : s.RepliesAt w := by
  obtain ⟨t, ht⟩ := h
  have hreplies : ((s.reply w route message).goto w pc).replies.map Reply.request =
      s.replies.map Reply.request ++ [(s.workers w).request.id] := List.map_append ..
  refine ⟨t, .cons hst rfl ?_ ht, ht.replies ?_⟩
  · rw [hreplies]
    exact List.subset_append_left ..
  · rw [hreplies]
    exact List.mem_append_right _ (List.mem_singleton_self _)

/-- The thread has a socket for its reply. -/
theorem repliesAt_of_sendto {fd : Nat} {a : SockaddrIn} {sock : Sock ω}
    (hpc : (s.workers w).pc = .sendtoUdp fd a) (hsock : s.fds.get? fd = some sock)
    (hfd : fd ≤ INT_MAX ∨ s.fds.lowestFree ≤ INT_MAX) : s.RepliesAt w := by
  have hst : s.serve w () =
      some ((s.reply w (sock.route a) [80, 79, 79, 80, 0]).goto w (.closeUdp fd)) := by
    rw [State.serve_eq (by simp [hpc]), State.serviceRoutine, hpc]
    dsimp only
    rw [State.sendto, if_pos rfl, hsock]
    rfl
  exact .of_reply hst (finishes_of_close (.inr (pc_goto ..)) hfd)

/-- The thread opens a socket for its reply. -/
theorem repliesAt_of_workUdp (hpc : (s.workers w).pc = .workUdp)
    (hfree : s.fds.lowestFree ≤ INT_MAX) : s.RepliesAt w := by
  have hst : s.serve w () = some ({ s with fds := s.fds.add (.sender w) }.goto w
      (.sendtoUdp s.fds.lowestFree (s.workers w).request.msg.data.clientAddr)) := by
    rw [State.serve_eq (by simp [hpc]), State.serviceRoutine, hpc]
    dsimp only
    rw [State.servicingRequestUDP, if_pos rfl, if_pos hfree]
  obtain ⟨t, ht, hreply⟩ := repliesAt_of_sendto (w := w)
    (s := { s with fds := s.fds.add (.sender w) }.goto w
      (.sendtoUdp s.fds.lowestFree (s.workers w).request.msg.data.clientAddr))
    (pc_goto ..) (s.fds.get?_add_lowestFree _) (.inl hfree)
  rw [request_goto] at hreply
  exact ⟨t, .cons hst rfl (fun _ hr => hr) ht, hreply⟩

/-- The connection of a request is open. -/
theorem repliesAt_of_workTcp {sock : Sock ω} (hpc : (s.workers w).pc = .workTcp)
    (hsock : s.fds.get? (s.workers w).request.msg.data.fd = some sock)
    (hfree : s.fds.lowestFree ≤ INT_MAX) : s.RepliesAt w := by
  have hst : s.serve w () =
      some ((s.reply w (.through sock) [80, 73, 73, 73, 80, 0]).goto w
        (.closeTcp (s.workers w).request.msg.data.fd)) := by
    rw [State.serve_eq (by simp [hpc]), State.serviceRoutine, hpc]
    dsimp only
    rw [State.servicingRequestTCP, if_pos rfl, hsock]
    rfl
  exact .of_reply hst (finishes_of_close (.inl (pc_goto ..)) (.inr hfree))

/-- The thread has taken a request out of the queue. -/
theorem repliesAt_of_choose (hs : Service s) (hpc : (s.workers w).pc = .choose)
    (hfree : s.fds.lowestFree ≤ INT_MAX) : s.RepliesAt w := by
  have hat := hs.workers w
  rw [hpc] at hat
  have hawaits : Awaits s (s.workers w).request := hat
  have hst : s.serve w () = some (s.choose w) := by
    rw [State.serve_eq (by simp [hpc]), State.serviceRoutine, hpc]
  have hfront : ∀ pc, s.choose w = s.goto w pc → (s.goto w pc).RepliesAt w → s.RepliesAt w := by
    rintro pc hchoose ⟨t, ht, hreply⟩
    rw [hchoose] at hst
    rw [request_goto] at hreply
    exact ⟨t, .cons hst rfl (fun _ hr => hr) ht, hreply⟩
  rcases hawaits.routed with ⟨htype, -, hsock⟩ | ⟨htype, -⟩
  · have hopen : (s.goto w .workTcp).fds.get? ((s.goto w .workTcp).workers w).request.msg.data.fd =
        some (.connection (s.workers w).request.id) := by
      rw [request_goto]
      exact hsock
    exact hfront .workTcp (if_pos htype) (repliesAt_of_workTcp (pc_goto ..) hopen hfree)
  · have hchoose : s.choose w = s.goto w .workUdp := by
      rw [State.choose, if_neg (by rw [htype]; decide), if_pos htype]
    exact hfront .workUdp hchoose (repliesAt_of_workUdp (pc_goto ..) hfree)

/-- A thread that has not exited comes to its next `SLEEP`. -/
theorem exists_finishes (hs : Service s) (hlive : (s.workers w).pc ≠ .exited)
    (hfree : s.fds.lowestFree ≤ INT_MAX) : ∃ t, Finishes s w t := by
  have hreplies : s.RepliesAt w → ∃ t, Finishes s w t := fun ⟨t, ht, _⟩ => ⟨t, ht⟩
  have hat := hs.workers w
  cases hpc : (s.workers w).pc with
  | sleep => exact ⟨s, .refl s, hpc, rfl, hfree, fun _ hr => hr⟩
  | choose => exact hreplies (repliesAt_of_choose hs hpc hfree)
  | workTcp =>
    rw [hpc] at hat
    exact hreplies (repliesAt_of_workTcp hpc (hat.1.of_tcp hat.2).2 hfree)
  | closeTcp fd => exact finishes_of_close (.inl hpc) (.inr hfree)
  | workUdp => exact hreplies (repliesAt_of_workUdp hpc hfree)
  | sendtoUdp fd a =>
    rw [hpc] at hat
    exact hreplies (repliesAt_of_sendto hpc hat.2.2 (.inr hfree))
  | closeUdp fd => exact finishes_of_close (.inr hpc) (.inr hfree)
  | error => rw [hpc] at hat; exact hat.elim
  | exited => exact absurd hpc hlive

theorem Service.serve (hs : Service s) (h : Leads (State.serve w) s t) : Service t := by
  obtain ⟨us, hrun⟩ := h
  refine run_keeps (fun s u t hs hst => ?_) hs hrun
  exact hs.moves (serviceRoutine_eq_some (State.serve_eq_some hst).2).moves

/-- The other threads stay where they are. -/
theorem Finishes.others (h : Finishes s w t) {v : ω} (hv : v ≠ w) : t.workers v = s.workers v := by
  obtain ⟨us, hrun⟩ := h.leads
  refine run_keeps (I := fun u => u.workers v = s.workers v) (fun u a u' hu hst => ?_) rfl hrun
  exact ((serviceRoutine_eq_some (State.serve_eq_some hst).2).frame.workers v hv).trans hu

end Serve

/-! ### The frames of the threads -/

/-- What lies behind `request` in the frame of a thread: nothing that is used again, or `msqfd`, for
    which `msgrcv` stores eight bytes that are the id of no queue. -/
inductive Behind
  | unused
  | msqfd
deriving DecidableEq

/-- The server, and which threads have lost the id of their queue. -/
structure Frames (ω : Type) where
  server : State ω
  lost : ω → Bool

namespace Frames

/-- The thread whose `msgrcv` succeeds in a step. -/
def receiver (s : State ω) : Label ω → Option ω
  | .worker w true =>
    match (s.workers w).pc with
    | .sleep => some w
    | _ => none
  | _ => none

/-- The main loop begins, and every thread has its queue. -/
structure Starts (f : Frames ω) : Prop where
  server : ServerQueue.Starts f.server
  lost : ∀ w, f.lost w = false

/-- Thread `w` can still receive a request. -/
def receives (f : Frames ω) (w : ω) : Bool :=
  match (f.server.workers w).pc with
  | .exited => false
  | _ => !f.lost w

variable {behind : Behind} {f g : Frames ω} {w : ω}

theorem receives_eq_true : f.receives w = true ↔
    (f.server.workers w).pc ≠ .exited ∧ f.lost w = false := by
  unfold receives
  split
  · rename_i hpc
    exact iff_of_false Bool.false_ne_true fun h => h.1 hpc
  · rename_i hpc
    rw [Bool.not_eq_true']
    exact (and_iff_right hpc).symm

/-- The thread that receives is asleep. -/
theorem receiver_eq_some {l : Label ω} (hw : receiver s l = some w) :
    l = .worker w true ∧ (s.workers w).pc = .sleep := by
  unfold receiver at hw
  split at hw
  · split at hw
    · rename_i hsleep
      cases hw
      exact ⟨rfl, hsleep⟩
    · cases hw
  · cases hw

/-- Only a receiver is handed a request, and only one. -/
theorem length_handed_le (s : State ω) (l : Label ω) :
    (s.handed l).length ≤ (receiver s l).toList.length := by
  unfold State.handed
  split
  · split
    · rename_i hsleep
      rw [receiver, hsleep]
      cases s.queue <;> simp
    · exact Nat.zero_le _
  · exact Nat.zero_le _

section Threads

variable [Fintype ω]

/-- There are threads for `n` requests: one that can still receive is enough, unless each can
    receive only one more. -/
def Enough (behind : Behind) (f : Frames ω) (n : Nat) : Prop :=
  match behind with
  | .unused => n = 0 ∨ ∃ w, f.receives w = true
  | .msqfd => n ≤ (Finset.univ.filter fun w => f.receives w = true).card

instance (f : Frames ω) (n : Nat) : Decidable (Enough behind f n) :=
  match behind with
  | .unused => inferInstanceAs (Decidable (n = 0 ∨ ∃ w, f.receives w = true))
  | .msqfd => inferInstanceAs (Decidable (n ≤ _))

theorem Enough.mono {m n : Nat} (h : Enough behind f n) (hmn : m ≤ n) : Enough behind f m := by
  cases behind with
  | unused => exact Or.imp_left (fun hn : n = 0 => Nat.le_zero.mp (hn ▸ hmn)) h
  | msqfd => exact Nat.le_trans hmn h

/-- It is a matter of the threads that can receive alone. -/
theorem Enough.of_receives {n : Nat} (h : Enough behind g n)
    (hfg : ∀ w, g.receives w = true → f.receives w = true) : Enough behind f n := by
  cases behind with
  | unused => exact Or.imp_right (Exists.imp hfg) h
  | msqfd =>
    have hsub := Finset.monotone_filter_right Finset.univ fun w _ => hfg w
    exact Nat.le_trans h (Finset.card_le_card hsub)

/-- For one request there is a thread. -/
theorem Enough.exists_receives {n : Nat} (h : Enough behind f (n + 1)) :
    ∃ w, f.receives w = true := by
  cases behind with
  | unused => exact Or.resolve_left h (Nat.succ_ne_zero n)
  | msqfd =>
    obtain ⟨w, hw⟩ := Finset.card_pos.mp (Nat.lt_of_lt_of_le (Nat.succ_pos n) h)
    exact ⟨w, (Finset.mem_filter.mp hw).2⟩

end Threads

variable [DecidableEq ω]

/-- What has been lost when `msgrcv` has written behind the `request` of thread `w`. -/
def overwrite (behind : Behind) (lost : ω → Bool) (w : ω) : ω → Bool :=
  match behind with
  | .unused => lost
  | .msqfd => Function.update lost w true

/-- One step; a `msgrcv` with the id of no queue does not succeed. -/
def next (behind : Behind) (f : Frames ω) (l : Label ω) : Option (Frames ω) :=
  match receiver f.server l with
  | none => (f.server.next l).map fun t => ⟨t, f.lost⟩
  | some w =>
    if f.lost w then none
    else (f.server.next l).map fun t => ⟨t, overwrite behind f.lost w⟩

/-- The server with its threads' frames. -/
def system (behind : Behind) : TransitionSystem (Frames ω) (Label ω) := .ofStep Starts (next behind)

/-! ### One step -/

variable {l : Label ω}

/-- Who has exited stays where he is. -/
theorem exited_next (h : s.next l = some t) {v : ω} (hv : (s.workers v).pc = .exited) :
    (t.workers v).pc = .exited := by
  cases l with
  | epollWait ev => obtain ⟨-, rfl⟩ := next_epollWait.mp h; exact hv
  | accept => obtain ⟨-, -, rfl⟩ := next_accept.mp h; exact hv
  | recv r => obtain ⟨-, rfl⟩ := next_recv.mp h; exact hv
  | recvfrom d a => obtain ⟨-, rfl⟩ := next_recvfrom.mp h; exact hv
  | msgsnd => obtain ⟨-, rfl⟩ := next_msgsnd.mp h; exact hv
  | worker w ok =>
    have hroutine : s.serviceRoutine w ok = some t := h
    by_cases hvw : v = w
    · subst hvw
      rw [State.serviceRoutine, hv] at hroutine
      cases hroutine
    · rw [(serviceRoutine_eq_some hroutine).frame.workers v hvw]
      exact hv

/-- What a step hands out was in front of the queue, and what is new is behind it. -/
theorem queue_next (h : s.next l = some t) :
    s.queue.map Request.id <+: s.handed l ++ t.queue.map Request.id := by
  cases l with
  | epollWait ev => obtain ⟨-, rfl⟩ := next_epollWait.mp h; exact List.prefix_rfl
  | accept => obtain ⟨-, -, rfl⟩ := next_accept.mp h; exact List.prefix_rfl
  | recv r => obtain ⟨-, rfl⟩ := next_recv.mp h; exact List.prefix_rfl
  | recvfrom d a => obtain ⟨-, rfl⟩ := next_recvfrom.mp h; exact List.prefix_rfl
  | msgsnd =>
    obtain ⟨-, rfl⟩ := next_msgsnd.mp h
    show _ <+: (s.queue ++ [s.request]).map Request.id
    rw [List.map_append]
    exact List.prefix_append ..
  | worker w ok => exact (serviceRoutine_eq_some h).queue ▸ List.prefix_rfl

/-- What a step with frames does: the step of the server, after which the receiver, if there is one,
    may have lost its queue. -/
theorem next_cases (h : next behind f l = some g) :
    f.server.next l = some g.server ∧
      (receiver f.server l = none ∧ g.lost = f.lost ∨
        ∃ w, receiver f.server l = some w ∧ f.lost w = false ∧
          g.lost = overwrite behind f.lost w) := by
  unfold next at h
  split at h
  · rename_i hnone
    obtain ⟨t, ht, rfl⟩ := Option.map_eq_some_iff.mp h
    exact ⟨ht, .inl ⟨hnone, rfl⟩⟩
  · rename_i w hw
    split at h
    · cases h
    · rename_i hlost
      obtain ⟨t, ht, rfl⟩ := Option.map_eq_some_iff.mp h
      exact ⟨ht, .inr ⟨w, hw, Bool.eq_false_iff.mpr hlost, rfl⟩⟩

/-- A thread that can receive behind a step could before. -/
theorem receives_next (h : next behind f l = some g) {v : ω} (hv : g.receives v = true) :
    f.receives v = true := by
  obtain ⟨hlive, hvl⟩ := receives_eq_true.mp hv
  obtain ⟨hst, hlost⟩ := next_cases h
  refine receives_eq_true.mpr ⟨fun hexited => hlive (exited_next hst hexited), ?_⟩
  obtain ⟨-, hlost⟩ | ⟨w, -, -, hlost⟩ := hlost
  · rwa [← hlost]
  · rw [hlost] at hvl
    cases behind with
    | unused => exact hvl
    | msqfd =>
      by_cases hvw : v = w
      · subst hvw
        rw [overwrite, Function.update_self] at hvl
        cases hvl
      · rwa [overwrite, Function.update_of_ne hvw] at hvl

/-- Without the frames it is the server that is reached. -/
theorem reachable_server (h : (system behind).Reachable f) : serverQueue.Reachable f.server := by
  induction h with
  | init hs => exact .init hs.server
  | step _ hst ih => exact .step ih (next_cases hst).1

/-- A thread behind its `msgrcv` needs no queue. -/
theorem leads_serve {t : State ω} (h : Leads (State.serve w) s t) (lost : ω → Bool) :
    Leads (next behind) ⟨s, lost⟩ ⟨t, lost⟩ := by
  obtain ⟨us, hrun⟩ := h
  refine run_keeps (I := fun u => Leads (next behind) ⟨s, lost⟩ ⟨u, lost⟩) (fun u a v hu hst => ?_)
    (.refl _) hrun
  obtain ⟨hpc, hst⟩ := State.serve_eq_some hst
  have hnone : receiver u (.worker w true) = none := by
    rw [receiver]
    split
    · rename_i hsleep
      exact absurd hsleep hpc
    · rfl
  have hnext : u.next (.worker w true) = some v := hst
  refine hu.trans (.of_next (a := .worker w true) ?_)
  rw [next, hnone, hnext]
  rfl

/-! ### Enough threads -/

variable (behind) in
/-- **The next request** is replied to by a thread that can still receive, which then sleeps again;
    the other threads stay as they are. -/
theorem exists_answered {q : Request} {queue : List Request} (hs : Service f.server)
    (hw : f.receives w = true) (hfree : f.server.fds.lowestFree ≤ INT_MAX)
    (hqueue : f.server.queue = q :: queue) :
    ∃ g, Leads (next behind) f g ∧ Service g.server ∧ g.server.queue = queue ∧
      g.server.fds.lowestFree ≤ INT_MAX ∧ (g.server.workers w).pc = .sleep ∧
      (∀ v, v ≠ w → g.server.workers v = f.server.workers v) ∧
      g.lost = overwrite behind f.lost w ∧
      q.id :: f.server.replies.map Reply.request ⊆ g.server.replies.map Reply.request := by
  obtain ⟨hlive, hlost⟩ := receives_eq_true.mp hw
  -- it finishes with the request it has
  obtain ⟨s, hs₁⟩ := exists_finishes hs hlive hfree
  have hservice := hs.serve hs₁.leads
  -- it receives the next one
  let u : State ω := { s with queue := queue }.setWorker w ⟨.choose, q⟩
  have hst : s.next (.worker w true) = some u := by
    show s.serviceRoutine w true = _
    rw [State.serviceRoutine, hs₁.sleeps]
    dsimp only
    rw [State.sleep, if_pos rfl, hs₁.queue, hqueue]
  have hworker : u.workers w = ⟨.choose, q⟩ := workers_setWorker_self ..
  have hu : Service u := hservice.moves (ServerQueue.next_cases hst)
  have hreceive : next behind ⟨s, f.lost⟩ (.worker w true) =
      some ⟨u, overwrite behind f.lost w⟩ := by
    have hreceiver : receiver s (.worker w true) = some w := by rw [receiver, hs₁.sleeps]
    rw [next, hreceiver]
    dsimp only
    rw [hlost, if_neg Bool.false_ne_true, hst]
    rfl
  -- and replies to it
  obtain ⟨t, ht, hreply⟩ := repliesAt_of_choose (w := w) hu (by rw [hworker]) hs₁.free
  rw [hworker] at hreply
  refine ⟨⟨t, overwrite behind f.lost w⟩, ?_, hu.serve ht.leads, ht.queue, ht.free, ht.sleeps,
    fun v hv => ?_, rfl, ?_⟩
  · exact (leads_serve hs₁.leads f.lost).trans ((Leads.of_next hreceive).trans
      (leads_serve ht.leads _))
  · rw [ht.others hv, ← hs₁.others hv]
    exact Function.update_of_ne hv ..
  · exact List.cons_subset.mpr ⟨hreply, fun r hr => ht.replies (hs₁.replies hr)⟩

section Threads

variable [Fintype ω]

/-- When thread `w` has received, and the others are as before, there are threads for one request
    less. -/
theorem Enough.replied {n : Nat} (h : Enough behind f (n + 1)) (hw : f.receives w = true)
    (hsleep : (g.server.workers w).pc = .sleep)
    (hothers : ∀ v, v ≠ w → g.server.workers v = f.server.workers v)
    (hlost : g.lost = overwrite behind f.lost w) : Enough behind g n := by
  obtain ⟨-, hwl⟩ := receives_eq_true.mp hw
  cases behind with
  | unused =>
    refine .inr ⟨w, receives_eq_true.mpr ⟨by rw [hsleep]; nofun, ?_⟩⟩
    rw [hlost]
    exact hwl
  | msqfd =>
    -- all but `w` can receive as before
    have hsub : (Finset.univ.filter fun v => f.receives v = true).erase w ⊆
        Finset.univ.filter fun v => g.receives v = true := by
      intro v hv
      obtain ⟨hne, hv⟩ := Finset.mem_erase.mp hv
      obtain ⟨hlive, hvl⟩ := receives_eq_true.mp (Finset.mem_filter.mp hv).2
      refine Finset.mem_filter.mpr ⟨Finset.mem_univ v, receives_eq_true.mpr ⟨?_, ?_⟩⟩
      · rwa [hothers v hne]
      · rw [hlost]
        exact (Function.update_of_ne hne ..).trans hvl
    have hcard := Finset.card_le_card hsub
    rw [Finset.card_erase_of_mem (Finset.mem_filter.mpr ⟨Finset.mem_univ w, hw⟩)] at hcard
    have hle : n + 1 ≤ (Finset.univ.filter fun v => f.receives v = true).card := h
    show n ≤ (Finset.univ.filter fun v => g.receives v = true).card
    omega

/-- Enough threads empty the queue, each request being replied to in its turn. -/
theorem exists_drained (hs : Service f.server) (hfree : f.server.fds.lowestFree ≤ INT_MAX)
    (h : Enough behind f f.server.queue.length) :
    ∃ g, Leads (next behind) f g ∧
      f.server.queue.map Request.id ++ f.server.replies.map Reply.request ⊆
        g.server.replies.map Reply.request := by
  induction hqueue : f.server.queue generalizing f with
  | nil => exact ⟨f, .refl f, fun _ hr => hr⟩
  | cons q queue ih =>
    rw [hqueue, List.length_cons] at h
    obtain ⟨w, hw⟩ := h.exists_receives
    obtain ⟨u, hu, hus, huq, hufree, husleep, hothers, hlost, hreplies⟩ :=
      exists_answered behind hs hw hfree hqueue
    obtain ⟨g, hg, hall⟩ := ih hus hufree (huq ▸ h.replied hw husleep hothers hlost) huq
    refine ⟨g, hu.trans hg, ?_⟩
    intro r hr
    rw [List.map_cons, List.cons_append, ← List.perm_middle.mem_iff, List.mem_append] at hr
    refine hall (List.mem_append.mpr (hr.imp_right fun hr => hreplies hr))

/-! ### Not enough threads -/

/-- Where thread `w` has received, and the others can receive only if they could before, there were
    threads for one request more. -/
theorem Enough.received {n : Nat} (h : Enough behind g n) (hw : f.receives w = true)
    (hlost : g.lost = overwrite behind f.lost w)
    (hothers : ∀ v, g.receives v = true → f.receives v = true) : Enough behind f (n + 1) := by
  cases behind with
  | unused => exact .inr ⟨w, hw⟩
  | msqfd =>
    have hsub : Finset.univ.filter (fun v => g.receives v = true) ⊂
        Finset.univ.filter fun v => f.receives v = true := by
      refine Finset.ssubset_iff_of_subset (fun v hv => ?_) |>.mpr ⟨w, ?_, fun hv => ?_⟩
      · exact Finset.mem_filter.mpr ⟨Finset.mem_univ v, hothers v (Finset.mem_filter.mp hv).2⟩
      · exact Finset.mem_filter.mpr ⟨Finset.mem_univ w, hw⟩
      · have hwl := (receives_eq_true.mp (Finset.mem_filter.mp hv).2).2
        rw [hlost, overwrite, Function.update_self] at hwl
        cases hwl
    exact Nat.lt_of_le_of_lt h (Finset.card_lt_card hsub)

/-- **One step** hands out `k` requests, and there were threads for as many more before it. -/
theorem enough_next (h : next behind f l = some g) :
    ∃ k, (f.server.queue.map Request.id).drop k <+: g.server.queue.map Request.id ∧
      ∀ n, Enough behind g n → Enough behind f (k + n) := by
  obtain ⟨hst, hlost⟩ := next_cases h
  refine ⟨(f.server.handed l).length, ?_, fun n hn => ?_⟩
  · have hdrop := (queue_next hst).drop (f.server.handed l).length
    rwa [List.drop_left] at hdrop
  · have hreceives : ∀ v, g.receives v = true → f.receives v = true := fun v hv =>
      receives_next h hv
    have hlen := length_handed_le f.server l
    obtain ⟨hnone, -⟩ | ⟨w, hw, hwl, hlost⟩ := hlost
    · -- nothing is handed out
      rw [hnone] at hlen
      rw [Nat.le_zero.mp hlen, Nat.zero_add]
      exact hn.of_receives hreceives
    · rw [hw] at hlen
      obtain ⟨rfl, hsleep⟩ := receiver_eq_some hw
      have hwr : f.receives w = true := receives_eq_true.mpr ⟨by simp [hsleep], hwl⟩
      have hmore := hn.received hwr hlost hreceives
      exact hmore.mono (Nat.add_comm 1 n ▸ Nat.add_le_add_right hlen n)

/-- A whole run. -/
theorem enough_run {ls : List (Label ω)} (h : run (next behind) f ls = some g) :
    ∃ k, (f.server.queue.map Request.id).drop k <+: g.server.queue.map Request.id ∧
      ∀ n, Enough behind g n → Enough behind f (k + n) := by
  refine run_keeps (I := fun u => ∃ k, (f.server.queue.map Request.id).drop k <+:
    u.server.queue.map Request.id ∧ ∀ n, Enough behind u n → Enough behind f (k + n))
    (fun u l v hu hst => ?_) ⟨0, List.prefix_rfl, fun n hn => (Nat.zero_add n).symm ▸ hn⟩ h
  obtain ⟨k, hqueue, henough⟩ := hu
  obtain ⟨j, hqueue', henough'⟩ := enough_next hst
  refine ⟨k + j, ?_, fun n hn => Nat.add_assoc k j n ▸ henough _ (henough' n hn)⟩
  rw [← List.drop_drop]
  exact (hqueue.drop j).trans hqueue'

/-- When all the requests in the queue have been replied to, there were threads for them. -/
theorem enough_of_replied (hs : Service f.server) (h : Leads (next behind) f g)
    (hall : ∀ q ∈ f.server.queue, q.id ∈ g.server.replies.map Reply.request) :
    Enough behind f f.server.queue.length := by
  obtain ⟨ls, hrun⟩ := h
  have hg : Service g.server := run_keeps (I := fun u => Service u.server)
    (fun u l v hu hst => hu.moves (ServerQueue.next_cases (next_cases hst).1)) hs hrun
  obtain ⟨k, hqueue, henough⟩ := enough_run hrun
  have hnone : Enough behind g 0 := by
    cases behind with
    | unused => exact .inl rfl
    | msqfd => exact Nat.zero_le _
  refine (henough 0 hnone).mono (Nat.not_lt.mp fun hlt => ?_)
  -- otherwise one of them is still in the queue, without a reply
  have hlen : (f.server.queue.map Request.id).length = f.server.queue.length := List.length_map ..
  rw [Nat.add_zero, ← hlen] at hlt
  have hmem : (f.server.queue.map Request.id)[k] ∈
      (f.server.queue.map Request.id).drop k := by
    rw [List.drop_eq_getElem_cons hlt]
    exact List.mem_cons_self
  obtain ⟨q, hq, hid⟩ := List.mem_map.mp (hqueue.subset hmem)
  obtain ⟨q', hq', hid'⟩ := List.mem_map.mp (List.getElem_mem hlt)
  refine (hg.queue q hq).unreplied ?_
  rw [hid, ← hid']
  exact hall q' hq'

/-- **Progress.**  In every reachable state with a descriptor number free, all the requests in the
    queue can still be replied to if and only if there are threads for them: any one that has not
    exited, or, if `msqfd` lies behind `request`, as many that have not yet received as there are
    requests. -/
theorem drains_iff (h : (system behind).Reachable f) (hfree : f.server.fds.lowestFree ≤ INT_MAX) :
    (∃ g, Leads (next behind) f g ∧
        ∀ q ∈ f.server.queue, q.id ∈ g.server.replies.map Reply.request) ↔
      Enough behind f f.server.queue.length := by
  have hs := service_of_reachable (reachable_server h)
  constructor
  · rintro ⟨g, hg, hall⟩
    exact enough_of_replied hs hg hall
  · intro henough
    obtain ⟨g, hg, hall⟩ := exists_drained hs hfree henough
    exact ⟨g, hg, fun q hq => hall (List.mem_append_left _ (List.mem_map_of_mem hq))⟩

end Threads

/-- Two threads, one of which has received a request: the next can be replied to, and two more
    cannot. -/
theorem drains_iff_two :
    let connection : List (Label Bool) :=
      [.epollWait (some 3), .accept, .recv .endOfStream, .msgsnd]
    let one := connection ++ [.worker true true] ++ connection
    let Drains : Frames Bool → Prop := fun f => ∃ g, Leads (next .msqfd) f g ∧
      ∀ q ∈ f.server.queue, q.id ∈ g.server.replies.map Reply.request
    ∃ f g, run (next .msqfd) ⟨idle, fun _ => false⟩ one = some f ∧
      run (next .msqfd) ⟨idle, fun _ => false⟩ (one ++ connection) = some g ∧
      Drains f ∧ ¬ Drains g := by
  intro connection one Drains
  let seen : Frames Bool → Nat × Bool := fun f =>
    (f.server.fds.lowestFree, decide (Enough .msqfd f f.server.queue.length))
  have hone : (run (next .msqfd) ⟨idle, fun _ => false⟩ one).map seen = some (8, true) := by
    decide +kernel
  have htwo : (run (next .msqfd) ⟨idle, fun _ => false⟩ (one ++ connection)).map seen =
      some (9, false) := by decide +kernel
  obtain ⟨f, hf, hseen⟩ := Option.map_eq_some_iff.mp hone
  obtain ⟨hfree, henough⟩ := Prod.mk.inj hseen
  obtain ⟨g, hg, hseen'⟩ := Option.map_eq_some_iff.mp htwo
  obtain ⟨hfree', henough'⟩ := Prod.mk.inj hseen'
  have hstart : (system .msqfd).Reachable ⟨idle, fun _ => false⟩ :=
    .init ⟨starts_idle, fun _ => rfl⟩
  refine ⟨f, g, hf, hg, ?_, fun h => ?_⟩
  · exact (drains_iff (.run hstart hf) (by rw [hfree]; decide)).mpr (of_decide_eq_true henough)
  · exact of_decide_eq_false henough'
      ((drains_iff (.run hstart hg) (by rw [hfree']; decide)).mp h)

end Frames

end EltexHomeworks.ServerQueue
