import EltexHomeworks.Lib.Descriptors
import EltexHomeworks.Net.Select

namespace EltexHomeworks.Select

open EltexHomeworks.Lib

/-!
# TCP/UDP server on `select` — what waits in its sockets

`Select.State` takes what the calls return from outside.  Here the kernel is part of the state: the
connections that were not accepted yet, the datagrams that were not received yet, and the server's
descriptors.  Clients come at any time; no call fails.

* `Orderly.next` — a call is made only when it has something to return;
* `exactly_once` — every client is answered once, in the order in which they came, and the
  connection that is being served is the only one open;
* `no_starvation` — a client with `k` others before it is answered within `6 * (k + 1) + 3` calls of
  the server, however many come on the other socket.
-/

/-- What a descriptor of the server stands for. -/
inductive Socket
  | inherited
  | listening
  | datagrams
  | connection (peer : Endpoint)
deriving DecidableEq

/-- `send_message_tcp`: `U TCP`, with its NUL. -/
def sendMessageTcp : Str := [85, 32, 84, 67, 80, 0]

/-- `send_message_udp`: `U UDP`, with its NUL. -/
def sendMessageUdp : Str := [85, 32, 85, 68, 80, 0]

/-- The server and its sockets: what waits at each of the two, what the descriptors of the server
    stand for, and what has been sent. -/
structure Host where
  server : State
  fds : Descriptors Socket
  /-- The backlog of `tcp_sock`. -/
  connections : List Endpoint
  /-- The queue of `udp_sock`. -/
  datagrams : List (Received BUF_SIZE)
  /-- What was sent on connections, to the peer of each. -/
  greeted : List (Endpoint × Str)
  /-- What was sent by `sendto`. -/
  replied : List (Endpoint × Str)

/-- A step: a client connects, a datagram arrives, or the server makes its next call. -/
inductive Event
  | connect (peer : Endpoint)
  | arrive (r : Received BUF_SIZE)
  | call

namespace Host

/-- The call the server is in, with what the kernel returns; `none` while it blocks. -/
def returns (s : Host) : Option Label :=
  match s.server.pc with
  | .select =>
    if s.connections = [] ∧ s.datagrams = [] then none
    else some (.select (some ⟨!s.connections.isEmpty, !s.datagrams.isEmpty⟩))
  | .accept => s.connections.head?.map (.accept s.fds.lowestFree)
  | .send _ => some .send
  | .close _ => some .close
  | .recvfrom => s.datagrams.head?.map fun r => .recvfrom (some r)
  | .sendto => some .sendto

/-- What a call does to the sockets.  `accept` takes the first connection of the backlog under the
    lowest free descriptor, and `recvfrom` the first datagram. -/
def effect (s : Host) (server : State) : Host :=
  match s.server.pc with
  | .select => { s with server := server }
  | .accept =>
    match s.connections with
    | [] => { s with server := server }
    | peer :: rest =>
      { s with server := server, connections := rest, fds := s.fds.add (.connection peer) }
  | .send cfd =>
    let sent := match s.fds.get? cfd with
      | some (.connection peer) => [(peer, sendMessageTcp)]
      | _ => []
    { s with server := server, greeted := s.greeted ++ sent }
  | .close cfd => { s with server := server, fds := s.fds.close cfd }
  | .recvfrom => { s with server := server, datagrams := s.datagrams.tail }
  | .sendto =>
    { s with
      server := server
      replied := s.replied ++ [(s.server.clientAddr, sendMessageUdp)] }

/-- The next state. -/
def next (s : Host) : Event → Option Host
  | .connect peer => some { s with connections := s.connections ++ [peer] }
  | .arrive r => some { s with datagrams := s.datagrams ++ [r] }
  | .call => s.returns.bind fun l => (s.server.next l).map s.effect

/-- The connection that was accepted and not answered yet. -/
def served (s : Host) : List Endpoint :=
  match s.server.pc with
  | .send cfd =>
    match s.fds.get? cfd with
    | some (.connection peer) => [peer]
    | _ => []
  | _ => []

/-- The sender of the datagram that was received and not answered yet. -/
def answering (s : Host) : List Endpoint :=
  if s.server.pc = .sendto then [s.server.clientAddr] else []

/-- Everyone who has connected. -/
def clientsTcp (s : Host) : List Endpoint :=
  s.greeted.map Prod.fst ++ s.served ++ s.connections

/-- Everyone a datagram has come from. -/
def clientsUdp (s : Host) : List Endpoint :=
  s.replied.map Prod.fst ++ s.answering ++ s.datagrams.map Received.source

/-- What a call of the server does, one case for each call: `select` waits until a socket has
    something to read, and the calls behind it take the head of a queue or send an answer. -/
inductive Calls (s : Host) : Host → Prop
  | select (hpc : s.server.pc = .select) (hwait : s.connections ≠ [] ∨ s.datagrams ≠ []) :
    Calls s { s with
      server := s.server.select (some ⟨!s.connections.isEmpty, !s.datagrams.isEmpty⟩) }
  | accept {peer : Endpoint} {rest : List Endpoint} (hpc : s.server.pc = .accept)
      (hwait : s.connections = peer :: rest) :
    Calls s { s with
      server := s.server.accept s.fds.lowestFree peer
      connections := rest
      fds := s.fds.add (.connection peer) }
  | send {cfd : Nat} (hpc : s.server.pc = .send cfd) :
    Calls s { s with
      server := s.server.send cfd
      greeted := s.greeted ++ s.served.map fun peer => (peer, sendMessageTcp) }
  | close {cfd : Nat} (hpc : s.server.pc = .close cfd) :
    Calls s { s with server := s.server.close, fds := s.fds.close cfd }
  | recvfrom {r : Received BUF_SIZE} {rest : List (Received BUF_SIZE)}
      (hpc : s.server.pc = .recvfrom) (hwait : s.datagrams = r :: rest) :
    Calls s { s with server := s.server.recvfrom (some r), datagrams := rest }
  | sendto (hpc : s.server.pc = .sendto) :
    Calls s { s with
      server := s.server.sendto
      replied := s.replied ++ [(s.server.clientAddr, sendMessageUdp)] }

variable {s t : Host}

theorem next_call (h : s.next .call = some t) : s.Calls t := by
  obtain ⟨l, hl, ht⟩ := Option.bind_eq_some_iff.mp h
  obtain ⟨server, hserver, rfl⟩ := Option.map_eq_some_iff.mp ht
  unfold returns at hl
  unfold effect
  cases hpc : s.server.pc with
  | select =>
    -- with both queues empty `select` does not return
    rw [hpc] at hl
    dsimp only at hl ⊢
    split at hl
    · cases hl
    · rename_i hwait
      cases hl
      cases (if_pos hpc).symm.trans hserver
      exact .select hpc (by
        rcases Classical.not_and_iff_not_or_not.mp hwait with h | h
        · exact .inl h
        · exact .inr h)
  | accept =>
    rw [hpc] at hl
    cases hconn : s.connections with
    | nil => simp [hconn] at hl
    -- `accept` takes the connection that has waited longest
    | cons peer rest =>
      simp only [hconn, List.head?_cons, Option.map_some, Option.some.injEq] at hl
      cases hl
      cases (if_pos hpc).symm.trans hserver
      exact .accept hpc hconn
  | send cfd =>
    rw [hpc] at hl
    cases hl
    simp only [State.next, hpc, Option.some.injEq] at hserver
    cases hserver
    -- the greeting goes to the connection that is open under `cfd`
    have hserved : s.served.map (fun peer => (peer, sendMessageTcp)) =
        (match s.fds.get? cfd with
          | some (.connection peer) => [(peer, sendMessageTcp)]
          | _ => []) := by
      simp only [served, hpc]
      split <;> rfl
    dsimp only
    rw [← hserved]
    exact .send hpc
  | close cfd =>
    rw [hpc] at hl
    cases hl
    simp only [State.next, hpc, Option.some.injEq] at hserver
    cases hserver
    exact .close hpc
  | recvfrom =>
    rw [hpc] at hl
    cases hdata : s.datagrams with
    | nil => simp [hdata] at hl
    | cons r rest =>
      -- `recvfrom` takes the datagram that came first
      simp only [hdata, List.head?_cons, Option.map_some, Option.some.injEq] at hl
      cases hl
      cases (if_pos hpc).symm.trans hserver
      exact .recvfrom hpc hdata
  | sendto =>
    rw [hpc] at hl
    cases hl
    cases (if_pos hpc).symm.trans hserver
    exact .sendto hpc

end Host

/-! ### The two tests of a turn -/

namespace State

variable (s : State)

theorem pc_close : s.close.pc = if s.rfds.udp then .recvfrom else .select := rfl

theorem rfds_select (ready : FdSet) : (s.select (some ready)).rfds = ready := by
  simp only [select, Option.getD_some]
  split <;> rfl

theorem pc_select (ready : FdSet) :
    (s.select (some ready)).pc =
      if ready.tcp then .accept else if ready.udp then .recvfrom else .select := by
  simp only [select, Option.getD_some]
  split <;> rfl

/-- The tests answer nobody. -/
theorem pc_close_ne : (∀ cfd, s.close.pc ≠ .send cfd) ∧ s.close.pc ≠ .sendto := by
  rw [pc_close]
  split <;> exact ⟨nofun, nofun⟩

theorem pc_select_ne (ready : FdSet) :
    (∀ cfd, (s.select (some ready)).pc ≠ .send cfd) ∧ (s.select (some ready)).pc ≠ .sendto := by
  rw [pc_select]
  split
  · exact ⟨nofun, nofun⟩
  · split <;> exact ⟨nofun, nofun⟩

end State

/-! ### Where a turn stands -/

namespace Pc

/-- The connections that are being served. -/
def onConnection : Pc → Nat
  | .send _ => 1
  | _ => 0

/-- The datagrams that are being answered. -/
def onDatagram : Pc → Nat
  | .sendto => 1
  | _ => 0

/-- The calls before the one that greets the next client that waits. -/
def beforeGreeting : Pc → Nat
  | .select => 2
  | .accept => 1
  | .send _ => 6
  | .close _ => 5
  | .recvfrom => 4
  | .sendto => 3

/-- The calls before the one that answers the next datagram that waits; `udp` is what `rfds`
    says. -/
def beforeReply (udp : Bool) : Pc → Nat
  | .select => 5
  | .accept => if udp then 4 else 8
  | .send _ => if udp then 3 else 7
  | .close _ => if udp then 2 else 6
  | .recvfrom => 1
  | .sendto => 6

end Pc

namespace Host

variable {s t : Host} {table : Descriptors Socket}

/-! ### What a call finds -/

/-- What a call at `pc` and those behind it in the turn are going to take is there. -/
def Finds (table : Descriptors Socket) (s : Host) : Pc → Prop
  | .select => True
  | .accept => s.connections ≠ [] ∧ (s.server.rfds.udp = true → s.datagrams ≠ [])
  | .send cfd => table.get? cfd = none ∧ (∃ peer, s.fds.get? cfd = some (.connection peer)) ∧
      (s.server.rfds.udp = true → s.datagrams ≠ [])
  | .close cfd => table.get? cfd = none ∧ (s.server.rfds.udp = true → s.datagrams ≠ [])
  | .recvfrom => s.datagrams ≠ []
  | .sendto => True

/-- The invariant; beyond `table` only the connection that is being served is open. -/
structure Orderly (table : Descriptors Socket) (s : Host) : Prop where
  finds : s.Finds table s.server.pc
  others : ∀ fd, s.server.pc ≠ .send fd → s.server.pc ≠ .close fd → s.fds.get? fd = table.get? fd

/-- More of everything does no harm. -/
theorem Finds.more {pc : Pc} (h : s.Finds table pc) (peers : List Endpoint)
    (rs : List (Received BUF_SIZE)) :
    Finds table { s with
      connections := s.connections ++ peers
      datagrams := s.datagrams ++ rs } pc := by
  have hdata : s.datagrams ≠ [] → s.datagrams ++ rs ≠ [] := fun h =>
    List.append_ne_nil_of_left_ne_nil h rs
  cases pc with
  | select => trivial
  | accept => exact ⟨List.append_ne_nil_of_left_ne_nil h.1 peers, fun hudp => hdata (h.2 hudp)⟩
  | send cfd => exact ⟨h.1, h.2.1, fun hudp => hdata (h.2.2 hudp)⟩
  | close cfd => exact ⟨h.1, fun hudp => hdata (h.2 hudp)⟩
  | recvfrom => exact hdata h
  | sendto => trivial

/-- **Every call** leaves the server with something to return for the next one of the turn. -/
theorem Orderly.call (h : s.Orderly table) (hst : s.Calls t) : t.Orderly table := by
  obtain ⟨hfinds, hothers⟩ := h
  cases hst with
  | select hpc hwait =>
    have hfds : ∀ fd, s.fds.get? fd = table.get? fd :=
      fun fd => hothers fd (by rw [hpc]; nofun) (by rw [hpc]; nofun)
    have hdata : (!s.datagrams.isEmpty) = true → s.datagrams ≠ [] := by simp
    have hconn : (!s.connections.isEmpty) = true → s.connections ≠ [] := by simp
    refine ⟨?_, fun fd _ _ => hfds fd⟩
    dsimp only
    rw [State.pc_select]
    split
    · rename_i htcp
      exact ⟨hconn htcp, fun hudp => hdata (by rwa [State.rfds_select] at hudp)⟩
    · split
      · rename_i hudp
        exact hdata hudp
      · trivial
  | @accept peer rest hpc hwait =>
    rw [hpc] at hfinds
    have hfds : ∀ fd, s.fds.get? fd = table.get? fd :=
      fun fd => hothers fd (by rw [hpc]; nofun) (by rw [hpc]; nofun)
    -- the number of the new connection was free, in `table` too
    refine ⟨⟨(hfds _).symm.trans s.fds.get?_lowestFree, ⟨peer, s.fds.get?_add_lowestFree _⟩,
      hfinds.2⟩, fun fd hne _ => ?_⟩
    have hfd : fd ≠ s.fds.lowestFree := fun heq => hne (by rw [heq]; rfl)
    exact (Descriptors.get?_add_of_ne _ hfd).trans (hfds fd)
  | @send cfd hpc =>
    rw [hpc] at hfinds
    refine ⟨⟨hfinds.1, hfinds.2.2⟩, fun fd _ hne =>
      hothers fd (fun hsend => ?_) (by rw [hpc]; nofun)⟩
    exact hne (congrArg Pc.close (Pc.send.inj (hpc.symm.trans hsend)))
  | @close cfd hpc =>
    rw [hpc] at hfinds
    refine ⟨?_, fun fd _ _ => ?_⟩
    · dsimp only
      rw [State.pc_close]
      split
      · rename_i hudp
        exact hfinds.2 hudp
      · trivial
    · -- the connection is closed, and nothing else was opened
      by_cases hfd : fd = cfd
      · rw [hfd, Descriptors.get?_close_self, hfinds.1]
      · rw [Descriptors.get?_close_of_ne hfd]
        exact hothers fd (by rw [hpc]; nofun) fun hclose =>
          hfd (Pc.close.inj (hclose.symm.trans hpc))
  | recvfrom hpc hwait =>
    exact ⟨trivial, fun fd _ _ => hothers fd (by rw [hpc]; nofun) (by rw [hpc]; nofun)⟩
  | sendto hpc =>
    exact ⟨trivial, fun fd _ _ => hothers fd (by rw [hpc]; nofun) (by rw [hpc]; nofun)⟩

theorem Orderly.next {e : Event} (h : s.Orderly table) (hst : s.next e = some t) :
    t.Orderly table := by
  cases e with
  | connect peer =>
    cases hst
    have hmore := h.finds.more [peer] []
    rw [List.append_nil] at hmore
    exact ⟨hmore, h.others⟩
  | arrive r =>
    cases hst
    have hmore := h.finds.more [] [r]
    rw [List.append_nil] at hmore
    exact ⟨hmore, h.others⟩
  | call => exact h.call (next_call hst)

/-- **The server blocks** only in `select`, with nothing in its sockets: `select` reports only what
    has something to read, and nobody but the server takes from a queue. -/
theorem Orderly.blocked_iff (h : s.Orderly table) :
    s.next .call = none ↔ s.server.pc = .select ∧ s.connections = [] ∧ s.datagrams = [] := by
  have hfinds := h.finds
  unfold Host.next returns
  cases hpc : s.server.pc with
  | select =>
    dsimp only
    split
    · rename_i hwait
      exact iff_of_true rfl ⟨rfl, hwait⟩
    · rename_i hwait
      exact iff_of_false (by simp [State.next, hpc]) fun hnot => hwait hnot.2
  | accept =>
    rw [hpc] at hfinds
    obtain ⟨peer, rest, hconn⟩ := List.exists_cons_of_ne_nil hfinds.1
    exact iff_of_false (by simp [hconn, State.next, hpc]) fun h => by cases h.1
  | send cfd => exact iff_of_false (by simp [State.next, hpc]) fun h => by cases h.1
  | close cfd => exact iff_of_false (by simp [State.next, hpc]) fun h => by cases h.1
  | recvfrom =>
    rw [hpc] at hfinds
    obtain ⟨r, rest, hdata⟩ := List.exists_cons_of_ne_nil hfinds
    exact iff_of_false (by simp [hdata, State.next, hpc]) fun h => by cases h.1
  | sendto => exact iff_of_false (by simp [State.next, hpc]) fun h => by cases h.1

/-! ### Who is answered -/

theorem served_of_ne {s : Host} (h : ∀ cfd, s.server.pc ≠ .send cfd) : s.served = [] := by
  unfold served
  split
  · rename_i cfd hpc
    exact absurd hpc (h cfd)
  · rfl

theorem answering_of_ne {s : Host} (h : s.server.pc ≠ .sendto) : s.answering = [] := if_neg h

/-- A call moves the clients on, and changes neither who they are nor their order. -/
theorem clients_call (hst : s.Calls t) :
    t.clientsTcp = s.clientsTcp ∧ t.clientsUdp = s.clientsUdp := by
  unfold clientsTcp clientsUdp
  cases hst with
  -- a `select` leaves the clients where they were
  | select hpc hwait =>
    obtain ⟨hsend, hsendto⟩ :=
      s.server.pc_select_ne ⟨!s.connections.isEmpty, !s.datagrams.isEmpty⟩
    rw [served_of_ne hsend, served_of_ne (s := s) (by rw [hpc]; nofun), answering_of_ne hsendto,
      answering_of_ne (s := s) (by rw [hpc]; nofun)]
    exact ⟨rfl, rfl⟩
  | @accept peer rest hpc hwait =>
    have hserved : served { s with
        server := s.server.accept s.fds.lowestFree peer
        connections := rest
        fds := s.fds.add (.connection peer) } = [peer] := by
      simp [served, State.accept]
    -- the client at the head of the queue is the one in service now
    rw [hserved, served_of_ne (s := s) (by rw [hpc]; nofun), answering_of_ne (by nofun),
      answering_of_ne (s := s) (by rw [hpc]; nofun), hwait]
    exact ⟨by simp, rfl⟩
  | @send cfd hpc =>
    let u : Host := { s with
      server := s.server.send cfd
      greeted := s.greeted ++ s.served.map fun peer => (peer, sendMessageTcp) }
    rw [show served u = [] from served_of_ne nofun, show answering u = [] from
      answering_of_ne nofun, answering_of_ne (s := s) (by rw [hpc]; nofun)]
    -- what was sent went to the peer of the connection
    exact ⟨by simp [Function.comp_def], rfl⟩
  | @close cfd hpc =>
    obtain ⟨hsend, hsendto⟩ := s.server.pc_close_ne
    let u : Host := { s with server := s.server.close, fds := s.fds.close cfd }
    rw [show served u = [] from served_of_ne hsend, show answering u = [] from
      answering_of_ne hsendto, served_of_ne (s := s) (by rw [hpc]; nofun),
      answering_of_ne (s := s) (by rw [hpc]; nofun)]
    exact ⟨rfl, rfl⟩
  | @recvfrom r rest hpc hwait =>
    have hanswering : answering { s with
        server := s.server.recvfrom (some r)
        datagrams := rest } = [r.source] := rfl
    rw [hanswering, served_of_ne (by nofun), served_of_ne (s := s) (by rw [hpc]; nofun),
      answering_of_ne (s := s) (by rw [hpc]; nofun), hwait]
    exact ⟨rfl, by simp⟩
  | sendto hpc =>
    -- the sender was being answered, and is one of those answered
    have hanswering : s.answering = [s.server.clientAddr] := if_pos hpc
    rw [hanswering, served_of_ne (by nofun), served_of_ne (s := s) (by rw [hpc]; nofun),
      answering_of_ne (by nofun)]
    exact ⟨rfl, by simp⟩

/-- Who connects, and who sends a datagram, in a run. -/
def connected : List Event → List Endpoint :=
  List.filterMap fun e => match e with
    | .connect peer => some peer
    | _ => none

def arrived : List Event → List Endpoint :=
  List.filterMap fun e => match e with
    | .arrive r => some r.source
    | _ => none

/-- Every greeting is `U TCP`, and every reply `U UDP`. -/
def Texts (s : Host) : Prop :=
  (∀ m ∈ s.greeted, m.2 = sendMessageTcp) ∧ ∀ m ∈ s.replied, m.2 = sendMessageUdp

theorem Texts.next {e : Event} (h : s.Texts) (hst : s.next e = some t) : t.Texts := by
  obtain ⟨htcp, hudp⟩ := h
  cases e with
  | connect peer => cases hst; exact ⟨htcp, hudp⟩
  | arrive r => cases hst; exact ⟨htcp, hudp⟩
  | call =>
    cases next_call hst with
    | select => exact ⟨htcp, hudp⟩
    | accept => exact ⟨htcp, hudp⟩
    | send =>
      refine ⟨fun m hm => ?_, hudp⟩
      rcases List.mem_append.mp hm with hm | hm
      · exact htcp m hm
      · obtain ⟨peer, -, rfl⟩ := List.mem_map.mp hm
        rfl
    | close => exact ⟨htcp, hudp⟩
    | recvfrom => exact ⟨htcp, hudp⟩
    | sendto =>
      refine ⟨htcp, fun m hm => ?_⟩
      rcases List.mem_append.mp hm with hm | hm
      · exact hudp m hm
      · rw [List.mem_singleton.mp hm]

/-- The clients after a run: those of before, and who came in it. -/
theorem clients_run {es : List Event} (h : run next s es = some t) :
    t.clientsTcp = s.clientsTcp ++ connected es ∧ t.clientsUdp = s.clientsUdp ++ arrived es := by
  induction es generalizing s with
  | nil => cases h; simp [connected, arrived]
  | cons e es ih =>
    obtain ⟨u, hu, hrest⟩ := run_cons_eq_some.mp h
    obtain ⟨htcp, hudp⟩ := ih hrest
    rw [htcp, hudp]
    cases e with
    | connect peer => cases hu; simp [clientsTcp, clientsUdp, connected, arrived, served, answering]
    | arrive r => cases hu; simp [clientsTcp, clientsUdp, connected, arrived, served, answering]
    | call =>
      obtain ⟨htcp', hudp'⟩ := clients_call (next_call hu)
      rw [htcp', hudp']
      exact ⟨rfl, rfl⟩

/-- The server before its loop, with nothing waiting for it. -/
def started (server : State) (table : Descriptors Socket) : Host where
  server := server
  fds := table
  connections := []
  datagrams := []
  greeted := []
  replied := []

theorem orderly_started {server : State} (hpc : server.pc = .select) (table : Descriptors Socket) :
    (started server table).Orderly table := by
  refine ⟨?_, fun _ _ _ => rfl⟩
  show Finds table _ server.pc
  rw [hpc]
  trivial

/-- **Exactly once.**  In every run, those who connected are, in this order, those who were sent
    `U TCP` on their connection, the one whose connection was accepted, and those who wait, and the
    senders of the datagrams likewise; beyond what was open before, at most the connection that is
    to be answered or closed next is. -/
theorem exactly_once {server : State} (hpc : server.pc = .select) (table : Descriptors Socket)
    {es : List Event} (h : run next (started server table) es = some t) :
    connected es = t.greeted.map Prod.fst ++ t.served ++ t.connections ∧
      arrived es = t.replied.map Prod.fst ++ t.answering ++ t.datagrams.map Received.source ∧
      t.Texts ∧
      (∀ fd, t.server.pc ≠ .send fd → t.server.pc ≠ .close fd → t.fds.get? fd = table.get? fd) ∧
      (t.next .call = none ↔ t.server.pc = .select ∧ t.connections = [] ∧ t.datagrams = []) := by
  have horderly : t.Orderly table :=
    run_keeps (fun _ _ _ h hst => h.next hst) (orderly_started hpc table) h
  have htexts : t.Texts :=
    run_keeps (fun _ _ _ h hst => Texts.next h hst)
      (⟨nofun, nofun⟩ : (started server table).Texts) h
  obtain ⟨htcp, hudp⟩ := clients_run h
  have hnone : (started server table).clientsTcp = [] ∧ (started server table).clientsUdp = [] := by
    unfold clientsTcp clientsUdp
    rw [served_of_ne (s := started server table) (by show ∀ cfd, server.pc ≠ _; rw [hpc]; nofun),
      answering_of_ne (s := started server table) (by show server.pc ≠ _; rw [hpc]; nofun)]
    exact ⟨rfl, rfl⟩
  rw [hnone.1, List.nil_append] at htcp
  rw [hnone.2, List.nil_append] at hudp
  exact ⟨htcp.symm, hudp.symm, htexts, horderly.others, horderly.blocked_iff⟩

/-- A connection and a datagram; the server has greeted the first, and has the second. -/
theorem exactly_once_turn :
    let peer : Endpoint := ⟨2130706433, 4000⟩
    let r : Received BUF_SIZE := ⟨⟨[72, 105], by decide⟩, ⟨2130706433, 4001⟩⟩
    ∃ t, run next (started idle ⟨[]⟩)
        [.connect peer, .arrive r, .call, .call, .call, .call, .call] = some t ∧
      [peer] = t.greeted.map Prod.fst ++ t.served ++ t.connections ∧
      [r.source] = t.replied.map Prod.fst ++ t.answering ++ t.datagrams.map Received.source := by
  intro peer r
  obtain ⟨t, ht⟩ : ∃ t, run next (started idle ⟨[]⟩)
      [.connect peer, .arrive r, .call, .call, .call, .call, .call] = some t := ⟨_, rfl⟩
  obtain ⟨htcp, hudp, -⟩ := exactly_once rfl ⟨[]⟩ ht
  exact ⟨t, ht, htcp, hudp⟩

/-! ### How long it takes -/

/-- The calls before the one for the client with the number `n`, at most, when `done` clients were
    taken and the next one is due after `turn` calls: a turn has six calls. -/
def callsLeft (n done turn : Nat) : Nat := if n < done then 0 else 6 * (n - done) + turn

/-- The next client comes nearer. -/
theorem callsLeft_lt {n done : Nat} (turn turn' : Nat) (hn : done ≤ n) (h : turn' < turn) :
    callsLeft n done turn' < callsLeft n done turn := by
  unfold callsLeft
  rw [if_neg (by omega), if_neg (by omega)]
  omega

/-- The next client is taken. -/
theorem callsLeft_succ_lt {n done : Nat} (turn turn' : Nat) (hn : done ≤ n)
    (h : turn' < turn + 6) (hturn : 0 < turn) :
    callsLeft n (done + 1) turn' < callsLeft n done turn := by
  unfold callsLeft
  rw [if_neg (c := n < done) (by omega)]
  split <;> omega

/-- Until the client with the number `n` is greeted. -/
def untilGreeting (n : Nat) (s : Host) : Nat :=
  callsLeft n (s.greeted.length + s.server.pc.onConnection) s.server.pc.beforeGreeting

/-- Until the datagram with the number `n` is answered. -/
def untilReply (n : Nat) (s : Host) : Nat :=
  callsLeft n (s.replied.length + s.server.pc.onDatagram)
    (s.server.pc.beforeReply s.server.rfds.udp)

theorem length_served (h : s.Orderly table) : s.served.length = s.server.pc.onConnection := by
  have hfinds := h.finds
  unfold served
  cases hpc : s.server.pc with
  | send cfd =>
    rw [hpc] at hfinds
    obtain ⟨-, ⟨peer, hpeer⟩, -⟩ := hfinds
    simp [hpeer, Pc.onConnection]
  | select => rfl
  | accept => rfl
  | close cfd => rfl
  | recvfrom => rfl
  | sendto => rfl

theorem length_answering (s : Host) : s.answering.length = s.server.pc.onDatagram := by
  unfold answering
  cases s.server.pc <;> rfl

/-- A call brings a client who waits nearer to the greeting. -/
theorem untilGreeting_call {n : Nat} (h : s.Orderly table) (hn : n < s.clientsTcp.length)
    (hno : s.greeted.length ≤ n) (hst : s.Calls t) :
    n < t.greeted.length ∨ untilGreeting n t < untilGreeting n s := by
  have hserved := length_served h
  simp only [clientsTcp, List.length_append, List.length_map, hserved] at hn
  cases hst with
  | select hpc hwait =>
    -- a client waits, and is reported
    have hacc : (s.server.select (some ⟨!s.connections.isEmpty, !s.datagrams.isEmpty⟩)).pc =
        .accept := by
      rw [State.pc_select, if_pos]
      cases hconn : s.connections with
      | nil => simp [hconn, hpc, Pc.onConnection] at hn; omega
      | cons peer rest => rfl
    unfold untilGreeting
    dsimp only
    rw [hacc, hpc]
    -- `accept` is the next call for it
    exact .inr (callsLeft_lt 2 1 hno (by decide))
  | accept hpc hwait =>
    unfold untilGreeting
    rw [hpc]
    exact .inr (callsLeft_succ_lt 1 6 hno (by decide) (by decide))
  | send hpc =>
    rw [hpc] at hserved
    -- either it was this client's turn, or the next round is one client nearer
    by_cases hone : n < s.greeted.length + 1
    · refine .inl ?_
      rw [List.length_append, List.length_map, hserved]
      exact hone
    · unfold untilGreeting
      dsimp only
      rw [List.length_append, List.length_map, hserved, hpc]
      exact .inr (callsLeft_lt 6 5 (Nat.not_lt.mp hone) (by decide))
  | close hpc =>
    unfold untilGreeting
    dsimp only
    rw [State.pc_close, hpc]
    refine .inr ?_
    -- a datagram reported in the same `select` comes before the next round
    split
    · exact callsLeft_lt 5 4 hno (by decide)
    · exact callsLeft_lt 5 2 hno (by decide)
  | recvfrom hpc hwait =>
    unfold untilGreeting
    rw [hpc]
    exact .inr (callsLeft_lt 4 3 hno (by decide))
  | sendto hpc =>
    unfold untilGreeting
    rw [hpc]
    exact .inr (callsLeft_lt 3 2 hno (by decide))

/-- A call brings a datagram that waits nearer to its reply. -/
theorem untilReply_call {n : Nat} (hn : n < s.clientsUdp.length) (hno : s.replied.length ≤ n)
    (hst : s.Calls t) : n < t.replied.length ∨ untilReply n t < untilReply n s := by
  simp only [clientsUdp, List.length_append, List.length_map, length_answering] at hn
  cases hst with
  | select hpc hwait =>
    -- a datagram waits, and is reported
    have hdata : (!s.datagrams.isEmpty) = true := by
      cases hdata : s.datagrams with
      | nil => simp [hdata, hpc, Pc.onDatagram] at hn; omega
      | cons r rest => rfl
    unfold untilReply
    dsimp only
    rw [State.rfds_select, State.pc_select, hdata, hpc]
    -- with a connection reported too, the datagram has to wait for that one first
    refine .inr ?_
    split
    · exact callsLeft_lt 5 4 hno (by decide)
    · exact callsLeft_lt 5 1 hno (by decide)
  | accept hpc hwait =>
    unfold untilReply
    rw [hpc]
    refine .inr (callsLeft_lt _ _ hno ?_)
    show (if s.server.rfds.udp then 3 else 7) < if s.server.rfds.udp then 4 else 8
    split <;> decide
  | send hpc =>
    unfold untilReply
    rw [hpc]
    refine .inr (callsLeft_lt _ _ hno ?_)
    show (if s.server.rfds.udp then 2 else 6) < if s.server.rfds.udp then 3 else 7
    split <;> decide
  | close hpc =>
    unfold untilReply
    dsimp only
    rw [State.pc_close, hpc]
    refine .inr ?_
    -- behind the connection comes the datagram, if it was reported in the same `select`
    cases hudp : s.server.rfds.udp with
    | true => exact callsLeft_lt 2 1 hno (by decide)
    | false => exact callsLeft_lt 6 5 hno (by decide)
  | recvfrom hpc hwait =>
    unfold untilReply
    rw [hpc]
    exact .inr (callsLeft_succ_lt 1 6 hno (by decide) (by decide))
  | sendto hpc =>
    have hlen : (s.replied ++ [(s.server.clientAddr, sendMessageUdp)]).length =
        s.replied.length + 1 := List.length_append
    -- either it was this datagram's turn, or the next `select` is one datagram nearer
    by_cases hone : n < s.replied.length + 1
    · exact .inl (hlen.symm ▸ hone)
    · unfold untilReply
      dsimp only
      rw [hlen, hpc]
      exact .inr (callsLeft_lt 6 5 (Nat.not_lt.mp hone) (by decide))

/-- A step is a call of the server. -/
def Event.isCall : Event → Bool
  | .call => true
  | _ => false

/-- What was answered stays answered, and no client is lost. -/
theorem grows_next {e : Event} (hst : s.next e = some t) :
    s.greeted.length ≤ t.greeted.length ∧ s.replied.length ≤ t.replied.length ∧
      s.clientsTcp.length ≤ t.clientsTcp.length ∧ s.clientsUdp.length ≤ t.clientsUdp.length := by
  have hrun : run next s [e] = some t := run_cons_eq_some.mpr ⟨t, hst, rfl⟩
  obtain ⟨htcp, hudp⟩ := clients_run hrun
  rw [htcp, hudp, List.length_append, List.length_append]
  have hanswered : s.greeted.length ≤ t.greeted.length ∧ s.replied.length ≤ t.replied.length := by
    cases e with
    | connect peer => cases hst; exact ⟨Nat.le_refl _, Nat.le_refl _⟩
    | arrive r => cases hst; exact ⟨Nat.le_refl _, Nat.le_refl _⟩
    | call => cases next_call hst <;> simp
  exact ⟨hanswered.1, hanswered.2, Nat.le_add_right _ _, Nat.le_add_right _ _⟩

theorem greeted_of_calls {n : Nat} {es : List Event} (h : s.Orderly table)
    (hn : n < s.clientsTcp.length) (hrun : run next s es = some t)
    (hcalls : untilGreeting n s < es.countP Event.isCall) : n < t.greeted.length := by
  refine reached_of_measure (I := fun s => s.Orderly table ∧ n < s.clientsTcp.length)
    (G := fun s => n < s.greeted.length) (untilGreeting n) ?_ ?_ ?_ ?_ ⟨h, hn⟩ hrun hcalls
  · exact fun u e v hu hst => ⟨hu.1.next hst, Nat.lt_of_lt_of_le hu.2 (grows_next hst).2.2.1⟩
  · exact fun u e v hu hst => Nat.lt_of_lt_of_le hu (grows_next hst).1
  · intro u e v hu hno he hst
    cases e with
    | connect peer => cases he
    | arrive r => cases he
    | call => exact untilGreeting_call hu.1 hu.2 (Nat.not_lt.mp hno) (next_call hst)
  · intro u e v hu hno he hst
    cases e with
    | connect peer => cases hst; exact .inr (Nat.le_refl _)
    | arrive r => cases hst; exact .inr (Nat.le_refl _)
    | call => cases he

theorem replied_of_calls {n : Nat} {es : List Event} (hn : n < s.clientsUdp.length)
    (hrun : run next s es = some t) (hcalls : untilReply n s < es.countP Event.isCall) :
    n < t.replied.length := by
  refine reached_of_measure (I := fun s => n < s.clientsUdp.length)
    (G := fun s => n < s.replied.length) (untilReply n) ?_ ?_ ?_ ?_ hn hrun hcalls
  · exact fun u e v hu hst => Nat.lt_of_lt_of_le hu (grows_next hst).2.2.2
  · exact fun u e v hu hst => Nat.lt_of_lt_of_le hu (grows_next hst).2.1
  · intro u e v hu hno he hst
    cases e with
    | connect peer => cases he
    | arrive r => cases he
    | call => exact untilReply_call hu (Nat.not_lt.mp hno) (next_call hst)
  · intro u e v hu hno he hst
    cases e with
    | connect peer => cases hst; exact .inr (Nat.le_refl _)
    | arrive r => cases hst; exact .inr (Nat.le_refl _)
    | call => cases he

/-- The next `k + 1` of the backlog are answered. -/
theorem connections_answered {k : Nat} {es : List Event} (h : s.Orderly table)
    (hk : k < s.connections.length) (hrun : run next s es = some t)
    (hcalls : 6 * (k + 1) + 3 ≤ es.countP Event.isCall) :
    s.greeted.map Prod.fst ++ s.served ++ s.connections.take (k + 1) <+:
      t.greeted.map Prod.fst := by
  have hserved := length_served h
  have hgreeted : s.greeted.length + s.served.length + k < t.greeted.length := by
    refine greeted_of_calls h ?_ hrun (Nat.lt_of_lt_of_le ?_ hcalls)
    · simp only [clientsTcp, List.length_append, List.length_map]
      omega
    · unfold untilGreeting callsLeft
      have hturn : s.server.pc.beforeGreeting ≤ 6 := by
        cases s.server.pc <;> simp [Pc.beforeGreeting]
      rw [hserved]
      split <;> omega
  -- both are prefixes of all who have connected, and the second is long enough
  refine @List.prefix_of_prefix_length_le _ _ _ t.clientsTcp ?_ ?_ ?_
  · rw [(clients_run hrun).1, clientsTcp, List.append_assoc _ s.connections]
    refine (List.prefix_append_right_inj _).mpr ?_
    exact (List.take_prefix _ _).trans (List.prefix_append _ _)
  · rw [clientsTcp, List.append_assoc]
    exact List.prefix_append _ _
  · simp only [List.length_append, List.length_map, List.length_take]
    omega

/-- The next `k + 1` of the datagrams are answered. -/
theorem datagrams_answered {k : Nat} {es : List Event} (hk : k < s.datagrams.length)
    (hrun : run next s es = some t) (hcalls : 6 * (k + 1) + 3 ≤ es.countP Event.isCall) :
    s.replied.map Prod.fst ++ s.answering ++ (s.datagrams.take (k + 1)).map Received.source <+:
      t.replied.map Prod.fst := by
  have hanswering := length_answering s
  have hreplied : s.replied.length + s.answering.length + k < t.replied.length := by
    refine replied_of_calls ?_ hrun (Nat.lt_of_lt_of_le ?_ hcalls)
    · -- of the datagrams that have come these are the next
      simp only [clientsUdp, List.length_append, List.length_map]
      omega
    · unfold untilReply callsLeft
      have hturn : s.server.pc.beforeReply s.server.rfds.udp ≤ 8 := by
        cases s.server.pc <;> cases s.server.rfds.udp <;> simp [Pc.beforeReply]
      rw [hanswering]
      split <;> omega
  -- the answers are a beginning of what has come, in the same order
  refine @List.prefix_of_prefix_length_le _ _ _ t.clientsUdp ?_ ?_ ?_
  · rw [(clients_run hrun).2, clientsUdp, List.append_assoc _ (s.datagrams.map _)]
    refine (List.prefix_append_right_inj _).mpr ?_
    exact ((List.take_prefix _ _).map _).trans (List.prefix_append _ _)
  · rw [clientsUdp, List.append_assoc]
    exact List.prefix_append _ _
  · simp only [List.length_append, List.length_map, List.length_take]
    omega

/-- **No starvation.**  In every run, a client with `k` others before it in the queue of its socket
    is answered, after those, within `6 * (k + 1) + 3` further calls of the server, however many
    come on either socket in the meantime. -/
theorem no_starvation {server : State} (hpc : server.pc = .select) (table : Descriptors Socket)
    {es₀ es : List Event} (hstart : run next (started server table) es₀ = some s)
    (hrun : run next s es = some t) :
    (∀ k < s.connections.length, 6 * (k + 1) + 3 ≤ es.countP Event.isCall →
        s.greeted.map Prod.fst ++ s.served ++ s.connections.take (k + 1) <+:
          t.greeted.map Prod.fst) ∧
      ∀ k < s.datagrams.length, 6 * (k + 1) + 3 ≤ es.countP Event.isCall →
        s.replied.map Prod.fst ++ s.answering ++ (s.datagrams.take (k + 1)).map Received.source <+:
          t.replied.map Prod.fst := by
  have horderly : s.Orderly table :=
    run_keeps (fun _ _ _ h hst => h.next hst) (orderly_started hpc table) hstart
  exact ⟨fun k hk => connections_answered horderly hk hrun, fun k hk => datagrams_answered hk hrun⟩

/-- Two datagrams arrive in the middle of a turn; after fifteen calls the second is answered. -/
theorem no_starvation_second :
    let r : Received BUF_SIZE := ⟨⟨[72, 105], by decide⟩, ⟨2130706433, 4001⟩⟩
    let r' : Received BUF_SIZE := ⟨⟨[], by decide⟩, ⟨2130706433, 4002⟩⟩
    ∃ s t, run next (started idle ⟨[]⟩)
        [.connect ⟨2130706433, 4000⟩, .call, .arrive r, .arrive r', .arrive r] = some s ∧
      run next s (List.replicate 10 .call ++ .connect ⟨2130706433, 4000⟩ ::
        List.replicate 5 .call) = some t ∧
      s.replied.map Prod.fst ++ s.answering ++ [r.source, r'.source] <+:
        t.replied.map Prod.fst := by
  intro r r'
  obtain ⟨s, hs⟩ : ∃ s, run next (started idle ⟨[]⟩)
      [.connect ⟨2130706433, 4000⟩, .call, .arrive r, .arrive r', .arrive r] = some s := ⟨_, rfl⟩
  have hdata : s.datagrams = [r, r', r] := by cases hs; rfl
  obtain ⟨t, ht⟩ : ∃ t, run next s (List.replicate 10 .call ++ .connect ⟨2130706433, 4000⟩ ::
      List.replicate 5 .call) = some t := by
    cases hs
    exact ⟨_, rfl⟩
  have hanswered := (no_starvation rfl ⟨[]⟩ hs ht).2 1 (by rw [hdata]; decide) (by decide)
  rw [hdata] at hanswered
  exact ⟨s, t, hs, ht, hanswered⟩

end Host

end EltexHomeworks.Select
