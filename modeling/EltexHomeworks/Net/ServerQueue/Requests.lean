import EltexHomeworks.Net.ServerQueue.Delivery

namespace EltexHomeworks.ServerQueue

open EltexHomeworks.Lib

/-!
# Request queue — the text of a queued request

`main` receives every request into the one `request.mtext`, and a receive overwrites as many bytes
as it got.  `Recorded` is the server with a record of what was received for each request and what
was then put into the queue.

`independent_iff`: the text queued for a request is the same whatever came before, and made of bytes
of its client, exactly when the receive filled the array with a terminated string.
-/

/-- What a request was received as: the result of `recv`, or the datagram of `recvfrom`. -/
inductive Receipt
  | tcp (r : RecvResult MSG_SIZE)
  | udp (d : Datagram MSG_SIZE)

/-- The bytes of the client. -/
def Receipt.data : Receipt → List UInt8
  | .tcp r => r.data
  | .udp d => d.val

theorem Receipt.length_data_le (r : Receipt) : r.data.length ≤ MSG_SIZE := by
  cases r with
  | tcp r => exact r.length_data_le
  | udp d => exact d.property

/-- A request put into the queue: what was received for it, and its text. -/
structure Enqueued where
  receipt : Receipt
  mtext : CharArray MSG_SIZE

/-- The server with the requests it has put into the queue, and what it received last. -/
structure Recorded (ω : Type) where
  server : State ω
  receipt : Option Receipt
  enqueued : List Enqueued

variable {ω : Type}

/-- What a step receives. -/
def Label.receipt : Label ω → Option Receipt
  | .recv r => some (.tcp r)
  | .recvfrom d _ => some (.udp d)
  | _ => none

/-- What a step puts into the queue. -/
def Recorded.sent (b : Recorded ω) : Label ω → List Enqueued
  | .msgsnd => b.receipt.toList.map fun r => ⟨r, b.server.request.msg.mtext⟩
  | _ => []

/-- The start of a record. -/
def Recorded.start (s : State ω) : Recorded ω := ⟨s, none, []⟩

/-- A server whose request holds the text `a` before its loop. -/
def holding (a : CharArray MSG_SIZE) : State ω where
  pc := .wait
  listenSocketTcp := 3
  listenSocketUdp := 4
  triggered := 0
  request := ⟨0, 0, a, ⟨0, 0⟩⟩
  fds := ⟨[]⟩
  queue := []
  workers _ := ⟨.sleep, 0, 0, a, ⟨0, 0⟩⟩
  taken := []
  replies := []
  serviced := []

theorem starts_holding (a : CharArray MSG_SIZE) : Starts (holding a : State ω) where
  pc := rfl
  queue := rfl
  workers _ := rfl
  fds fd sock h := by simp [holding, Descriptors.get?] at h
  taken := rfl
  replies := rfl
  serviced := rfl

variable [DecidableEq ω]

/-- A step of the server, recorded. -/
def Recorded.next (b : Recorded ω) (l : Label ω) : Option (Recorded ω) :=
  (b.server.next l).map fun t => ⟨t, l.receipt.or b.receipt, b.enqueued ++ b.sent l⟩

/-- The text of request `k`, received as `r`, is the same in any two runs, and it is a string of
    bytes of the client. -/
def Independent (ω : Type) [DecidableEq ω] (k : Nat) (r : Receipt) : Prop :=
  ∀ (s s' : State ω) (ls ls' : List (Label ω)) (b b' : Recorded ω) (m m' : CharArray MSG_SIZE),
    Starts s → Starts s' →
    run Recorded.next (.start s) ls = some b → run Recorded.next (.start s') ls' = some b' →
    b.enqueued[k]? = some ⟨r, m⟩ → b'.enqueued[k]? = some ⟨r, m'⟩ →
    m.bytes = m'.bytes ∧ 0 ∈ m.bytes ∧ ∀ c ∈ text m.bytes, c ∈ r.data

/-- A text that was received over another one. -/
def Enqueued.Over (e : Enqueued) : Prop := ∃ a : CharArray MSG_SIZE, e.mtext = a.recv e.receipt.data

/-- The invariant: what is queued, or about to be, was received over what was there. -/
structure Overwritten (b : Recorded ω) : Prop where
  main : b.server.pc = .msgsnd → ∃ r, b.receipt = some r ∧
    Enqueued.Over ⟨r, b.server.request.msg.mtext⟩
  enqueued : ∀ e ∈ b.enqueued, e.Over

/-- Every step keeps it. -/
theorem Overwritten.next {b c : Recorded ω} {l : Label ω} (h : Overwritten b)
    (hc : b.next l = some c) : Overwritten c := by
  obtain ⟨t, ht, rfl⟩ := Option.map_eq_some_iff.mp hc
  cases l with
  | epollWait ev =>
    obtain ⟨-, rfl⟩ := next_epollWait.mp ht
    -- `epoll_wait` leads to `accept` or `recvfrom`, never to `msgsnd`
    refine ⟨fun hpc => ?_, by simpa [Recorded.sent] using h.enqueued⟩
    have henq := enqueues_epollWait b.server ev
    rw [show (b.server.epollWait ev).pc = .msgsnd from hpc] at henq
    cases henq
  | accept =>
    obtain ⟨-, -, rfl⟩ := next_accept.mp ht
    exact ⟨nofun, by simpa [Recorded.sent] using h.enqueued⟩
  | recv r =>
    obtain ⟨-, rfl⟩ := next_recv.mp ht
    -- the receipt is written over `request` here
    exact ⟨fun _ => ⟨.tcp r, rfl, _, rfl⟩, by simpa [Recorded.sent] using h.enqueued⟩
  | recvfrom d a =>
    obtain ⟨-, rfl⟩ := next_recvfrom.mp ht
    exact ⟨fun _ => ⟨.udp d, rfl, _, rfl⟩, by simpa [Recorded.sent] using h.enqueued⟩
  | msgsnd =>
    obtain ⟨hpc, rfl⟩ := next_msgsnd.mp ht
    -- what is sent is `request` as the main loop last wrote it
    refine ⟨nofun, fun e he => ?_⟩
    rcases List.mem_append.mp he with he | he
    · exact h.enqueued e he
    · obtain ⟨r, hr, hover⟩ := h.main hpc
      simp only [Recorded.sent, hr, Option.toList_some, List.map_cons, List.map_nil,
        List.mem_singleton] at he
      rw [he]
      exact hover
  | worker w ok =>
    -- a thread has a `request` of its own
    have hframe := (serviceRoutine_eq_some ht).frame
    refine ⟨fun hpc => ?_, by simpa [Recorded.sent] using h.enqueued⟩
    show ∃ r, b.receipt = some r ∧ Enqueued.Over ⟨r, t.request.msg.mtext⟩
    rw [hframe.request]
    exact h.main (hframe.pc.symm.trans hpc)

/-- Throughout a run, from whatever was in the array. -/
theorem overwritten_of_run {s : State ω} (hs : Starts s) {ls : List (Label ω)} {b : Recorded ω}
    (h : run Recorded.next (.start s) ls = some b) : Overwritten b := by
  refine run_keeps (fun b l c hb hc => Overwritten.next hb hc) ?_ h
  exact ⟨fun hpc => (by cases hs.pc.symm.trans hpc), nofun⟩

/-! ### Runs with chosen requests -/

/-- The main loop waits with `a` as the text of its request, and can take a request of either
    kind. -/
structure Ready (b : Recorded ω) (a : CharArray MSG_SIZE) : Prop where
  pc : b.server.pc = .wait
  sockets : b.server.listenSocketUdp ≠ b.server.listenSocketTcp
  fd : b.server.fds.lowestFree ≤ INT_MAX
  mtext : b.server.request.msg.mtext = a

variable {b : Recorded ω} {a : CharArray MSG_SIZE}

/-- A datagram is queued. -/
theorem Ready.udp (h : Ready b a) (d : Datagram MSG_SIZE) :
    ∃ ls c, run Recorded.next b ls = some c ∧ Ready c (a.recv d.val) ∧
      c.enqueued = b.enqueued ++ [⟨.udp d, a.recv d.val⟩] := by
  refine ⟨[.epollWait (some b.server.listenSocketUdp), .recvfrom d ⟨0, 0⟩, .msgsnd], ?_⟩
  simp only [run, Recorded.next, State.next, h.pc, State.epollWait, Option.getD_some,
    if_neg h.sockets, if_true, Option.map_some, Option.bind_some]
  refine ⟨_, rfl, ⟨rfl, h.sockets, h.fd, ?_⟩, ?_⟩
  · exact congrArg (CharArray.recv · d.val) h.mtext
  · simp [Recorded.sent, Label.receipt, State.recvfrom, h.mtext]

/-- A connection is queued. -/
theorem Ready.tcp (h : Ready b a) (r : RecvResult MSG_SIZE) :
    ∃ ls c, run Recorded.next b ls = some c ∧
      c.enqueued = b.enqueued ++ [⟨.tcp r, a.recv r.data⟩] := by
  refine ⟨[.epollWait (some b.server.listenSocketTcp), .accept, .recv r, .msgsnd], ?_⟩
  simp only [run, Recorded.next, State.next, h.pc, State.epollWait, Option.getD_some,
    if_true, if_pos h.fd, State.accept, Option.map_some, Option.bind_some]
  refine ⟨_, rfl, ?_⟩
  simp [Recorded.sent, Label.receipt, State.recv, h.mtext]

/-- **Any request at any place** is queued over the text the run began with, if what comes before
    are empty datagrams. -/
theorem Ready.exists_enqueued (h : Ready b a) (k : Nat) (r : Receipt) :
    ∃ ls c, run Recorded.next b ls = some c ∧
      c.enqueued[b.enqueued.length + k]? = some ⟨r, a.recv r.data⟩ := by
  induction k generalizing b with
  | zero =>
    have hlast : ∃ ls c, run Recorded.next b ls = some c ∧
        c.enqueued = b.enqueued ++ [⟨r, a.recv r.data⟩] := by
      cases r with
      | tcp r => exact h.tcp r
      | udp d =>
        obtain ⟨ls, c, hrun, -, hc⟩ := h.udp d
        exact ⟨ls, c, hrun, hc⟩
    obtain ⟨ls, c, hrun, hc⟩ := hlast
    exact ⟨ls, c, hrun, by rw [hc]; exact List.getElem?_concat_length⟩
  | succ k ih =>
    obtain ⟨ls, c, hrun, hready, hc⟩ := h.udp ⟨[], Nat.zero_le _⟩
    rw [CharArray.recv_nil] at hready
    obtain ⟨ls', c', hrun', hc'⟩ := ih hready
    refine ⟨ls ++ ls', c', by rw [run_append, hrun]; exact hrun', ?_⟩
    rw [hc, List.length_append, List.length_singleton] at hc'
    rw [← hc']
    congr 1
    omega

/-- **Queued requests and earlier clients.**  The text of request `k` is the same in any two runs in
    which the same was received for it, and consists of bytes of its client, exactly when that
    filled the array with a terminated string. -/
theorem independent_iff (k : Nat) (r : Receipt) :
    Independent ω k r ↔ r.data.length = MSG_SIZE ∧ 0 ∈ r.data := by
  rw [← CharArray.recv_independent_iff r.length_data_le]
  constructor
  · intro h a a'
    have hready : ∀ a, Ready (.start (holding a : State ω)) a := fun a =>
      ⟨rfl, (by decide : 4 ≠ 3), Nat.zero_le _, rfl⟩
    obtain ⟨ls, b, hrun, hb⟩ := (hready a).exists_enqueued k r
    obtain ⟨ls', b', hrun', hb'⟩ := (hready a').exists_enqueued k r
    rw [show (Recorded.start (holding _)).enqueued.length = 0 from rfl, Nat.zero_add] at hb hb'
    exact h _ _ ls ls' b b' _ _ (starts_holding a) (starts_holding a') hrun hrun' hb hb'
  · intro h s s' ls ls' b b' m m' hs hs' hrun hrun' hb hb'
    obtain ⟨a, ha⟩ := (overwritten_of_run hs hrun).enqueued _ (List.mem_of_getElem? hb)
    obtain ⟨a', ha'⟩ := (overwritten_of_run hs' hrun').enqueued _ (List.mem_of_getElem? hb')
    rw [show m = _ from ha, show m' = _ from ha']
    exact h a a'

/-- Behind the two bytes of a datagram stands what an earlier client has sent. -/
theorem not_independent_of_short : ¬ Independent Bool 1 (.udp ⟨[72, 105], by decide⟩) := by
  intro h
  have heq := (h idle idle
    [.epollWait (some 4), .recvfrom ⟨[115, 101, 99, 114, 101, 116], by decide⟩ ⟨2, 1⟩, .msgsnd,
      .epollWait (some 4), .recvfrom ⟨[72, 105], by decide⟩ ⟨2, 7⟩, .msgsnd]
    [.epollWait (some 4), .recvfrom ⟨[], by decide⟩ ⟨2, 1⟩, .msgsnd,
      .epollWait (some 4), .recvfrom ⟨[72, 105], by decide⟩ ⟨2, 7⟩, .msgsnd]
    _ _ _ _ starts_idle starts_idle rfl rfl rfl rfl).1
  exact absurd heq (by decide)

end EltexHomeworks.ServerQueue
