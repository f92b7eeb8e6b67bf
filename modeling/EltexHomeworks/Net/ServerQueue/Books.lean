import EltexHomeworks.Lib.Ledger
import EltexHomeworks.Net.ServerQueue.Delivery

namespace EltexHomeworks.ServerQueue

open EltexHomeworks.Lib

/-!
# Request queue — for whom a descriptor is open

The descriptor of a request is opened in one place and closed in another: for TCP `accept` of the
main loop opens it and the thread closes it, for UDP the thread does both.  `Audited` is the server
with a ledger of these calls.

* `Books` — the invariant: the ledger adds up, and says of every open descriptor whose it is;
* `entry_cases` — a step opens a descriptor for a request, closes one, or does neither (`Quiet`);
* `Books.next` — every step keeps the books.
-/

variable {ω : Type}

/-- The server with the account of the descriptors opened for requests. -/
structure Audited (ω : Type) where
  server : State ω
  ledger : Ledger Nat

/-- The ledger after a step: `accept` and the `socket` of a thread open a descriptor for a request,
    the `close`s of a thread close one. -/
def State.entry (s : State ω) (g : Ledger Nat) : Label ω → Ledger Nat
  | .accept => g.opening s.fds.lowestFree s.taken.length
  | .worker w ok =>
    match (s.workers w).pc with
    | .workUdp => if ok then g.opening s.fds.lowestFree (s.workers w).request.id else g
    | .closeTcp sendSock => g.closing sendSock
    | .closeUdp sockSender => g.closing sockSender
    | _ => g
  | _ => g

/-- A step of the server, entered into the ledger. -/
def Audited.next [DecidableEq ω] (b : Audited ω) (l : Label ω) : Option (Audited ω) :=
  (b.server.next l).map fun t => ⟨t, b.server.entry b.ledger l⟩

/-! ### The books -/

/-- The socket a thread has opened for its reply. -/
def WorkerPc.socket? : WorkerPc → Option Nat
  | .sendtoUdp sockSender _ => some sockSender
  | .closeUdp sockSender => some sockSender
  | _ => none

/-- What is open under a number, and for whom: a connection is open for its request, a socket for
    some request that came as a datagram. -/
def OwnedBy (taken : List Origin) : Option (Sock ω) → Option Nat → Prop
  | some (.connection r), o => o = some r
  | some (.sender _), o => ∃ r a, o = some r ∧ taken[r]? = some (.address a)
  | _, o => o = none

/-- **The invariant** of server and ledger: the ledger is sound, and says of every open descriptor
    which request it was opened for. -/
structure Books (b : Audited ω) : Prop where
  service : Service b.server
  sound : b.ledger.Sound
  owned : ∀ fd, OwnedBy b.server.taken (b.server.fds.get? fd) (b.ledger.owner fd)
  /-- The socket of a thread is open for the request the thread has. -/
  socket : ∀ w fd, (b.server.workers w).pc.socket? = some fd →
    b.ledger.owner fd = some (b.server.workers w).request.id
  known : ∀ r ∈ b.ledger.opened, r < b.server.taken.length
  /-- A socket was opened by nobody but the thread that has, or has had, the request. -/
  opened : ∀ r a, r ∈ b.ledger.opened → b.server.taken[r]? = some (.address a) →
    r ∈ b.server.serviced ∨
      ∃ w, (b.server.workers w).request.id = r ∧ (b.server.workers w).pc.socket? ≠ none

/-- A step that opens and closes nothing; a request is serviced by it only with a failure. -/
structure Quiet (s : State ω) (l : Label ω) (t : State ω) : Prop where
  fds : t.fds = s.fds
  taken : s.taken <+: t.taken
  serviced : t.serviced = s.serviced ∨
    ∃ w, s.CallFails w l ∧ t.serviced = s.serviced ++ [(s.workers w).request.id]
  socket : ∀ w fd, (t.workers w).pc.socket? = some fd →
    (s.workers w).pc.socket? = some fd ∧ (t.workers w).request = (s.workers w).request
  kept : ∀ w, (s.workers w).pc.socket? ≠ none → (s.workers w).request.id ∈ t.serviced ∨
    (t.workers w).request = (s.workers w).request ∧ (t.workers w).pc.socket? ≠ none

variable {s t : State ω} {g : Ledger Nat} {l : Label ω}

/-- What is open keeps its owner when more requests are taken. -/
theorem OwnedBy.mono {taken taken' : List Origin} {x : Option (Sock ω)} {o : Option Nat}
    (h : OwnedBy taken x o) (htaken : taken <+: taken') : OwnedBy taken' x o := by
  cases x with
  | none => exact h
  | some sock =>
    cases sock with
    | own => exact h
    | connection r => exact h
    | sender w =>
      obtain ⟨r, a, ho, hr⟩ := h
      obtain ⟨os, rfl⟩ := htaken
      exact ⟨r, a, ho, by rw [List.getElem?_append_left (List.getElem?_eq_some_iff.mp hr).1, hr]⟩

variable {b : Audited ω}

/-- A free number belongs to nobody. -/
theorem Books.owner_lowestFree (h : Books b) :
    b.ledger.owner b.server.fds.lowestFree = none := by
  have hfree := h.owned b.server.fds.lowestFree
  rw [Descriptors.get?_lowestFree] at hfree
  exact hfree

theorem Books.ne_lowestFree (h : Books b) {fd r : Nat} (howner : b.ledger.owner fd = some r) :
    fd ≠ b.server.fds.lowestFree := by
  rintro rfl
  rw [h.owner_lowestFree] at howner
  cases howner

/-- A request in the hands of a thread is with no other thread, and not serviced. -/
theorem Books.held (h : Books b) {w : ω} (hw : (b.server.workers w).pc.holds = true) :
    (b.server.workers w).request.id ∉ b.server.serviced ∧
      ∀ v, (b.server.workers v).pc.holds = true →
        (b.server.workers v).request.id = (b.server.workers w).request.id → v = w := by
  constructor
  · intro hmem
    obtain ⟨k, hk⟩ := List.getElem?_of_mem hmem
    cases h.service.once.unique (.held w) (.serviced k) _ (occupant_held hw) hk
  · intro v hv hid
    have heq := h.service.once.unique (.held v) (.held w) _ (occupant_held hv)
      (by rw [occupant_held hw, hid])
    exact Location.held.inj heq

theorem WorkerPc.holds_of_socket {pc : WorkerPc} (h : pc.socket? ≠ none) : pc.holds = true := by
  cases pc <;> first | rfl | exact absurd rfl h

/-- A thread that is about to open a socket has a request for which none was opened. -/
theorem Books.not_opened (h : Books b) {w : ω} (hpc : (b.server.workers w).pc = .workUdp) :
    (b.server.workers w).request.id ∉ b.ledger.opened ∧
      b.server.taken[(b.server.workers w).request.id]? =
        some (.address (b.server.workers w).request.msg.data.clientAddr) := by
  have hat := h.service.workers w
  rw [hpc] at hat
  have htaken := hat.1.of_udp hat.2
  have hheld := h.held (w := w) (by rw [hpc]; rfl)
  refine ⟨fun hopened => ?_, htaken⟩
  rcases h.opened _ _ hopened htaken with hserviced | ⟨v, hid, hv⟩
  · exact hheld.1 hserviced
  · have heq := hheld.2 v (WorkerPc.holds_of_socket hv) hid
    rw [heq, hpc] at hv
    exact hv rfl

/-- The number a thread is about to close belongs to the request it has. -/
theorem Books.owner_close (h : Books b) {w : ω} {fd : Nat}
    (hpc : (b.server.workers w).pc = .closeTcp fd ∨ (b.server.workers w).pc = .closeUdp fd) :
    b.ledger.owner fd = some (b.server.workers w).request.id := by
  rcases hpc with hpc | hpc
  · have hat := h.service.workers w
    rw [hpc] at hat
    have howned := h.owned fd
    rw [show b.server.fds.get? fd = _ from hat] at howned
    exact howned
  · exact h.socket w fd (by rw [hpc]; rfl)

/-- The connection of the request that is taken. -/
theorem Books.accept (h : Books b) {t : State ω} (hservice : Service t)
    (ht : t = b.server.accept) :
    Books ⟨t, b.ledger.opening b.server.fds.lowestFree b.server.taken.length⟩ := by
  subst ht
  have hfree := h.owner_lowestFree
  constructor
  · exact hservice
  · exact h.sound.opening hfree fun hmem => Nat.lt_irrefl _ (h.known _ hmem)
  · -- the number that `accept` returns was free
    intro fd
    by_cases hfd : fd = b.server.fds.lowestFree
    · subst hfd
      show OwnedBy _ ((b.server.fds.add _).get? _) _
      rw [Descriptors.get?_add_lowestFree, Ledger.owner_opening_self]
      exact rfl
    · show OwnedBy _ ((b.server.fds.add _).get? fd) _
      rw [Descriptors.get?_add_of_ne _ hfd, Ledger.owner_opening_of_ne hfd]
      exact (h.owned fd).mono (List.prefix_append _ _)
  · -- so it is not the socket of a thread
    intro w fd hw
    have howner := h.socket w fd hw
    rw [Ledger.owner_opening_of_ne (h.ne_lowestFree howner)]
    exact howner
  · -- the connection is known from here on
    intro r hr
    show r < (b.server.taken ++ [_]).length
    rw [List.length_append, List.length_singleton]
    rcases List.mem_append.mp hr with hr | hr
    · exact Nat.lt_succ_of_lt (h.known r hr)
    · rw [List.mem_singleton.mp hr]
      exact Nat.lt_succ_self _
  · intro r a hr htaken
    have htaken : (b.server.taken ++ [.connection])[r]? = some (.address a) := htaken
    rcases List.mem_append.mp hr with hr | hr
    · rw [List.getElem?_append_left (h.known r hr)] at htaken
      exact h.opened r a hr htaken
    -- the connection just accepted is no datagram
    · rw [List.mem_singleton.mp hr, List.getElem?_concat_length] at htaken
      cases htaken

/-- The main loop between its `accept`s. -/
theorem Quiet.main (hfds : t.fds = s.fds) (htaken : s.taken <+: t.taken)
    (hserviced : t.serviced = s.serviced) (hworkers : t.workers = s.workers) : Quiet s l t where
  fds := hfds
  taken := htaken
  serviced := .inl hserviced
  socket w fd h := by
    rw [hworkers] at h ⊢
    exact ⟨h, rfl⟩
  kept w h := by
    rw [hworkers]
    exact .inr ⟨rfl, h⟩

theorem Books.quiet (h : Books b) {l : Label ω} {t : State ω} (hservice : Service t)
    (hq : Quiet b.server l t) : Books ⟨t, b.ledger⟩ := by
  obtain ⟨os, hos⟩ := hq.taken
  constructor
  · exact hservice
  · exact h.sound
  · -- no descriptor is opened or closed, and the requests only get more
    intro fd
    show OwnedBy t.taken (t.fds.get? fd) _
    rw [hq.fds]
    exact (h.owned fd).mono hq.taken
  · intro w fd hw
    obtain ⟨hs, hrequest⟩ := hq.socket w fd hw
    rw [hrequest]
    exact h.socket w fd hs
  · intro r hr
    show r < t.taken.length
    rw [← hos, List.length_append]
    exact Nat.lt_of_lt_of_le (h.known r hr) (Nat.le_add_right _ _)
  · intro r a hr hra
    have hra : t.taken[r]? = some (.address a) := hra
    rw [← hos, List.getElem?_append_left (h.known r hr)] at hra
    -- who had the request has it still, or has just serviced it
    rcases h.opened r a hr hra with hmem | ⟨w, hid, hw⟩
    · refine .inl ?_
      show r ∈ t.serviced
      rcases hq.serviced with heq | ⟨w, -, heq⟩ <;> rw [heq]
      · exact hmem
      · exact List.mem_append_left _ hmem
    · rcases hq.kept w hw with hmem | ⟨hrequest, hw'⟩
      · exact .inl (hid ▸ hmem)
      · exact .inr ⟨w, by rw [hrequest]; exact hid, hw'⟩

theorem books_of_starts {s : State ω} (h : Starts s) : Books ⟨s, .empty⟩ where
  service := service_of_starts h
  sound := .empty
  owned fd := by
    show OwnedBy _ (s.fds.get? fd) none
    cases hfd : s.fds.get? fd with
    | none => exact rfl
    | some sock =>
      rw [h.fds fd sock hfd]
      exact rfl
  socket w fd hw := by
    rw [show (s.workers w).pc = .sleep from h.workers w] at hw
    cases hw
  known r hr := by cases hr
  opened r a hr := by cases hr

/-! ### The entry of a step -/

variable [DecidableEq ω]

/-- A thread that goes on with the socket it has, or goes on without one. -/
theorem ThreadFrame.quiet {w : ω} {k : Worker} (hframe : ThreadFrame s w t) (hfds : t.fds = s.fds)
    (hserviced : t.serviced = s.serviced)
    (hk : k.pc.socket? = (s.workers w).pc.socket?)
    (hrequest : k.pc.socket? = none ∨ k.request = (s.workers w).request) :
    Quiet s l (t.setWorker w k) := by
  have hframe' := hframe.setWorker k
  constructor
  · exact hfds
  · exact hframe'.taken ▸ List.prefix_rfl
  · exact .inl hserviced
  · intro v fd h
    by_cases hv : v = w
    · subst hv
      rw [workers_setWorker_self] at h ⊢
      refine ⟨hk ▸ h, hrequest.resolve_left ?_⟩
      rw [h]
      exact Option.some_ne_none fd
    · rw [hframe'.workers v hv] at h ⊢
      exact ⟨h, rfl⟩
  · intro v h
    by_cases hv : v = w
    · subst hv
      rw [workers_setWorker_self, hk]
      rw [← hk] at h
      exact .inr ⟨hrequest.resolve_left h, hk ▸ h⟩
    · rw [hframe'.workers v hv]
      exact .inr ⟨rfl, h⟩

/-- A thread whose call fails while it services its request. -/
theorem Quiet.fail {w : ω} (hfails : s.CallFails w l) {ret : Int} (hret : ret ≠ -1) :
    Quiet s l (s.finish w ret) := by
  -- it goes back to `SLEEP`, and its request counts as serviced
  have hframe : ThreadFrame s w (s.finish w ret) :=
    (ThreadFrame.refl s w).finish ret
  have hsleep : ((s.finish w ret).workers w).pc = .sleep := by
    rw [State.finish, if_neg hret]
    show ((s.goto w .sleep).workers w).pc = .sleep
    rw [State.goto, workers_setWorker_self]
  have hserviced : (s.finish w ret).serviced = s.serviced ++ [(s.workers w).request.id] := by
    rw [State.finish, if_neg hret]
  constructor
  · rw [State.finish, if_neg hret]
    rfl
  · exact hframe.taken ▸ List.prefix_rfl
  · exact .inr ⟨w, hfails, hserviced⟩
  · intro v fd h
    by_cases hv : v = w
    · rw [hv, hsleep] at h
      cases h
    · rw [hframe.workers v hv] at h ⊢
      exact ⟨h, rfl⟩
  · intro v h
    by_cases hv : v = w
    · rw [hv, hserviced]
      exact .inl (List.mem_append_right _ (List.mem_singleton_self _))
    · rw [hframe.workers v hv]
      exact .inr ⟨rfl, h⟩

/-- What a step enters into the ledger. -/
theorem entry_cases (h : s.next l = some t) :
    s.pc = .accept ∧ t = s.accept ∧
        s.entry g l = g.opening s.fds.lowestFree s.taken.length ∨
      (∃ w, (s.workers w).pc = .workUdp ∧
        t = { s with fds := s.fds.add (.sender w) }.goto w
          (.sendtoUdp s.fds.lowestFree (s.workers w).request.msg.data.clientAddr) ∧
        s.entry g l = g.opening s.fds.lowestFree (s.workers w).request.id) ∨
      (∃ w fd, ((s.workers w).pc = .closeTcp fd ∨ (s.workers w).pc = .closeUdp fd) ∧
        t = s.closeAndReturn w fd ∧ s.entry g l = g.closing fd) ∨
      Quiet s l t ∧ s.entry g l = g := by
  cases l with
  -- of the steps of `main` only `accept` opens a descriptor, and none closes one
  | epollWait ev =>
    obtain ⟨-, rfl⟩ := next_epollWait.mp h
    exact .inr (.inr (.inr ⟨.main rfl (List.prefix_refl _) rfl rfl, rfl⟩))
  | accept =>
    obtain ⟨hpc, -, rfl⟩ := next_accept.mp h
    exact .inl ⟨hpc, rfl, rfl⟩
  | recv r =>
    obtain ⟨-, rfl⟩ := next_recv.mp h
    exact .inr (.inr (.inr ⟨.main rfl (List.prefix_refl _) rfl rfl, rfl⟩))
  | recvfrom d a =>
    obtain ⟨-, rfl⟩ := next_recvfrom.mp h
    exact .inr (.inr (.inr ⟨.main rfl (List.prefix_append _ _) rfl rfl, rfl⟩))
  | msgsnd =>
    obtain ⟨-, rfl⟩ := next_msgsnd.mp h
    exact .inr (.inr (.inr ⟨.main rfl (List.prefix_refl _) rfl rfl, rfl⟩))
  | worker w ok =>
    have hself := ThreadFrame.refl s w
    cases serviceRoutine_eq_some h with
    | msgrcv q queue hpc hqueue =>
      have hframe := ThreadFrame.queue s w queue
      refine .inr (.inr (.inr ⟨hframe.quiet rfl rfl (by rw [hpc]; rfl) (.inl rfl), ?_⟩))
      simp only [State.entry, hpc]
    | exit hpc =>
      refine .inr (.inr (.inr ⟨hself.quiet rfl rfl (by rw [hpc]; rfl) (.inl rfl), ?_⟩))
      simp only [State.entry, hpc]
    | choose ok hpc =>
      have hgoto : ∀ pc : WorkerPc, pc.socket? = none → Quiet s (.worker w ok) (s.goto w pc) :=
        fun pc hnone => hself.quiet rfl rfl (by rw [hpc]; exact hnone) (.inl hnone)
      refine .inr (.inr (.inr ⟨?_, by simp only [State.entry, hpc]⟩))
      unfold State.choose
      split
      · exact hgoto .workTcp rfl
      · split
        · exact hgoto .workUdp rfl
        · exact hgoto .error rfl
    | sendTcp sock hpc hsock =>
      have hframe := ThreadFrame.reply s w (.through sock) [80, 73, 73, 73, 80, 0]
      refine .inr (.inr (.inr ⟨hframe.quiet rfl rfl (by rw [hpc]; rfl) (.inl rfl), ?_⟩))
      simp only [State.entry, hpc]
    | socket hpc => exact .inr (.inl ⟨w, hpc, rfl, by simp only [State.entry, hpc, if_true]⟩)
    | sendtoUdp fd a sock hpc hsock =>
      have hframe := ThreadFrame.reply s w (sock.route a) [80, 79, 79, 80, 0]
      refine .inr (.inr (.inr ⟨hframe.quiet rfl rfl (by rw [hpc]; rfl) (.inr rfl), ?_⟩))
      simp only [State.entry, hpc]
    | fail ret hpc =>
      -- where `send` or `sendto` fails, the socket stays open and the ledger as it was
      rcases hpc with ⟨hpc, rfl⟩ | ⟨hpc, rfl⟩ | ⟨fd, a, hpc, rfl⟩
      · exact .inr (.inr (.inr ⟨.fail ⟨rfl, .inl hpc⟩ (by decide),
          by simp only [State.entry, hpc]⟩))
      · exact .inr (.inr (.inr ⟨.fail ⟨rfl, .inr (.inl hpc)⟩ (by decide),
          by simp [State.entry, hpc]⟩))
      · exact .inr (.inr (.inr ⟨.fail ⟨rfl, .inr (.inr ⟨fd, a, hpc⟩)⟩ (by decide),
          by simp only [State.entry, hpc]⟩))
    | close ok fd hpc =>
      -- a number given back, whichever of the two helpers does it
      refine .inr (.inr (.inl ⟨w, fd, hpc, rfl, ?_⟩))
      rcases hpc with hpc | hpc <;> simp only [State.entry, hpc]
    | restart ok hpc =>
      refine .inr (.inr (.inr ⟨hself.quiet rfl rfl (by rw [hpc]; rfl) (.inl rfl), ?_⟩))
      simp only [State.entry, hpc]

/-! ### Every step keeps the books -/

/-- The socket a thread opens for the request it has. -/
theorem Books.openSocket (h : Books b) {w : ω} {t : State ω} (hservice : Service t)
    (hpc : (b.server.workers w).pc = .workUdp)
    (ht : t = { b.server with fds := b.server.fds.add (.sender w) }.goto w
      (.sendtoUdp b.server.fds.lowestFree (b.server.workers w).request.msg.data.clientAddr)) :
    Books ⟨t, b.ledger.opening b.server.fds.lowestFree (b.server.workers w).request.id⟩ := by
  subst ht
  have hfree := h.owner_lowestFree
  obtain ⟨hnew, htaken⟩ := h.not_opened hpc
  constructor
  · exact hservice
  · exact h.sound.opening hfree hnew
  · -- the new number belongs to the request, the others to whom they did
    intro fd
    by_cases hfd : fd = b.server.fds.lowestFree
    · subst hfd
      show OwnedBy _ ((b.server.fds.add _).get? _) _
      rw [Descriptors.get?_add_lowestFree, Ledger.owner_opening_self]
      exact ⟨_, _, rfl, htaken⟩
    · show OwnedBy _ ((b.server.fds.add _).get? fd) _
      rw [Descriptors.get?_add_of_ne _ hfd, Ledger.owner_opening_of_ne hfd]
      exact h.owned fd
  · intro v fd hv
    by_cases hvw : v = w
    · subst hvw
      rw [State.goto, workers_setWorker_self] at hv ⊢
      rw [← Option.some.inj hv]
      exact Ledger.owner_opening_self
    · rw [State.goto, workers_setWorker_of_ne _ hvw] at hv ⊢
      have howner := h.socket v fd hv
      rw [Ledger.owner_opening_of_ne (h.ne_lowestFree howner)]
      exact howner
  · intro r hr
    rcases List.mem_append.mp hr with hr | hr
    · exact h.known r hr
    · rw [List.mem_singleton.mp hr]
      exact (List.getElem?_eq_some_iff.mp htaken).1
  · -- the thread that has the request holds the new socket
    intro r a hr hra
    rcases List.mem_append.mp hr with hr | hr
    · rcases h.opened r a hr hra with hserviced | ⟨v, hid, hv⟩
      · exact .inl hserviced
      · have hvw : v ≠ w := by
          rintro rfl
          rw [hpc] at hv
          exact hv rfl
        refine .inr ⟨v, ?_⟩
        rw [State.goto, workers_setWorker_of_ne _ hvw]
        exact ⟨hid, hv⟩
    · refine .inr ⟨w, ?_⟩
      rw [State.goto, workers_setWorker_self]
      exact ⟨(List.mem_singleton.mp hr).symm, Option.some_ne_none _⟩

/-- What belongs to the request of a thread is closed by it. -/
theorem Books.closeSocket (h : Books b) {w : ω} {fd : Nat} {t : State ω} (hservice : Service t)
    (hpc : (b.server.workers w).pc = .closeTcp fd ∨ (b.server.workers w).pc = .closeUdp fd)
    (ht : t = b.server.closeAndReturn w fd) : Books ⟨t, b.ledger.closing fd⟩ := by
  have howner := h.owner_close hpc
  have hholds : (b.server.workers w).pc.holds = true := by
    rcases hpc with hpc | hpc <;> rw [hpc] <;> rfl
  have hw : (t.workers w).pc = .sleep := by
    rw [ht]
    show ((State.goto _ w .sleep).workers w).pc = .sleep
    rw [State.goto, workers_setWorker_self]
  have hothers : ∀ v, v ≠ w → t.workers v = b.server.workers v := by
    intro v hv
    rw [ht]
    show (State.goto _ w .sleep).workers v = _
    rw [State.goto, workers_setWorker_of_ne _ hv]
  subst ht
  constructor
  · exact hservice
  · exact h.sound.closing fd
  · intro fd'
    -- `fd` has no owner any more, and the other numbers have theirs
    by_cases hfd : fd' = fd
    · subst hfd
      show OwnedBy _ ((b.server.fds.close _).get? _) _
      rw [Descriptors.get?_close_self, Ledger.owner_closing_self]
      exact rfl
    · show OwnedBy _ ((b.server.fds.close fd).get? fd') _
      rw [Descriptors.get?_close_of_ne hfd, Ledger.owner_closing_of_ne hfd]
      exact h.owned fd'
  · intro v fd' hv
    have hvw : v ≠ w := by
      rintro rfl
      rw [hw] at hv
      cases hv
    rw [hothers v hvw] at hv ⊢
    have howner' := h.socket v fd' hv
    -- the number closed belongs to another request
    have hfd : fd' ≠ fd := by
      rintro rfl
      rw [howner] at howner'
      refine hvw ((h.held hholds).2 v ?_ (Option.some.inj howner').symm)
      exact WorkerPc.holds_of_socket (by rw [hv]; exact Option.some_ne_none _)
    rw [Ledger.owner_closing_of_ne hfd]
    exact howner'
  · exact h.known
  · intro r a hr hra
    -- the request of `w` has been serviced now
    rcases h.opened r a hr hra with hserviced | ⟨v, hid, hv⟩
    · exact .inl (List.mem_append_left _ hserviced)
    · by_cases hvw : v = w
      · rw [← hid, hvw]
        exact .inl (List.mem_append_right _ (List.mem_singleton_self _))
      · refine .inr ⟨v, ?_⟩
        rw [hothers v hvw]
        exact ⟨hid, hv⟩

/-- **Every step** of server and ledger keeps the books: a descriptor is opened for the request at
    hand and given back by the thread that has that request. -/
theorem Books.next (h : Books b) {l : Label ω} {c : Audited ω} (hc : b.next l = some c) :
    Books c := by
  obtain ⟨t, ht, rfl⟩ := Option.map_eq_some_iff.mp hc
  have hservice := h.service.moves (next_cases ht)
  rcases entry_cases (g := b.ledger) ht with
    ⟨-, heq, hentry⟩ | ⟨w, hpc, heq, hentry⟩ | ⟨w, fd, hpc, heq, hentry⟩ | ⟨hq, hentry⟩ <;>
    rw [hentry]
  · exact h.accept hservice heq
  · exact h.openSocket hservice hpc heq
  · exact h.closeSocket hservice hpc heq
  · exact h.quiet hservice hq

end EltexHomeworks.ServerQueue
