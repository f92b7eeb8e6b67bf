import EltexHomeworks.Lib.Parties
import EltexHomeworks.Lib.Simulation
import EltexHomeworks.Net.MultiUserTcpParent

namespace EltexHomeworks.MultiUserTcpEcho

open EltexHomeworks.Lib

/-!
# Multi-user TCP echo — the server with its clients

Clients connect at any time and wait in the queue of the listening socket; parent, children and
clients take their steps in any order, and a `recv` takes any number of the bytes in flight.  All
calls succeed.

* `System.next` — the processes of `Server` with the clients and the two streams of each connection;
* `Session.next` — one client alone, with a child of its own;
* `refines` — what the clients and children of the system do is what such sessions do when they are
  served in the order in which they came;
* `sessions_iff` — so they can come to any combination of states that they can come to alone.
-/

/-- `message_to`, with its NUL: `sizeof` of the pointer is 8. -/
def messageTo : List UInt8 := [72, 105, 32, 73, 108, 121, 97, 0]

/-- Where a client is: before its first `recv`, or before a `send` or `recv` of its loop. -/
inductive ClientPc
  | greeting
  | send
  | recv
deriving DecidableEq, Repr

/-- A client that is connected, with the bytes in flight on its connection.  `sent`, `got` and
    `printed` record what has passed; no step depends on them. -/
structure Client where
  pc : ClientPc
  messageFrom : CharArray BUF_SIZE
  /-- The bytes in flight on its connection. -/
  toServer : List UInt8
  toClient : List UInt8
  /-- All that it has sent and received. -/
  sent : List UInt8
  got : List UInt8
  /-- What `message_from` held at each `printf`. -/
  printed : List (List UInt8)

/-- `r` takes bytes that are there. -/
def Takes (r : RecvResult BUF_SIZE) (stream : List UInt8) : Prop :=
  r.data ≠ [] ∧ r.data <+: stream

instance (r : RecvResult BUF_SIZE) (stream : List UInt8) : Decidable (Takes r stream) :=
  inferInstanceAs (Decidable (_ ∧ _))

namespace Client

/-- A client behind its `connect`. -/
def start (messageFrom : CharArray BUF_SIZE) : Client :=
  ⟨.greeting, messageFrom, [], [], [], [], []⟩

variable (c : Client)

/-- `recv` and `printf`. -/
def receive (r : RecvResult BUF_SIZE) : Client :=
  { c with
    pc := .send
    messageFrom := c.messageFrom.recv r.data
    toClient := c.toClient.drop r.data.length
    got := c.got ++ r.data
    printed := c.printed ++ [(c.messageFrom.recv r.data).bytes] }

/-- `send(fd, message_to, sizeof(message_to), 0)`. -/
def send : Client :=
  { c with pc := .recv, toServer := c.toServer ++ messageTo, sent := c.sent ++ messageTo }

/-- A step; `none` while the client waits.  The greeting is received like any reply. -/
def step (r : RecvResult BUF_SIZE) : Option Client :=
  match c.pc with
  | .send => some c.send
  | .greeting => if Takes r c.toClient then some (c.receive r) else none
  | .recv => if Takes r c.toClient then some (c.receive r) else none

/-- The other end of the connection takes the bytes `taken` and sends `given`. -/
def exchange (taken given : List UInt8) : Client :=
  { c with toServer := c.toServer.drop taken.length, toClient := c.toClient ++ given }

theorem exchange_nil (c : Client) : c.exchange [] [] = c := by
  rw [exchange, List.append_nil]
  rfl

/-- A client that waits has nothing to receive. -/
def Idle : Prop := c.pc = .greeting ∧ c.toClient = []

variable {c}

theorem not_takes_nil (r : RecvResult BUF_SIZE) : ¬ Takes r [] :=
  fun h => h.1 (List.prefix_nil.mp h.2)

theorem Idle.step (h : c.Idle) (r : RecvResult BUF_SIZE) : c.step r = none := by
  rw [Client.step, h.1, h.2]
  exact if_neg (not_takes_nil r)

end Client

/-! ### One client alone -/

/-- A client and its child, if there is one by now. -/
structure Session where
  client : Client
  child : Option (ChildPc × Child)

/-- A step of a session. -/
inductive SessionLabel
  | fork
  | client (r : RecvResult BUF_SIZE)
  | child (r : RecvResult BUF_SIZE)

namespace Session

/-- A client that has just connected. -/
def start (messageFrom : CharArray BUF_SIZE) : Session := ⟨.start messageFrom, none⟩

/-- A child with the first `send` or the loop ahead of it. -/
def childStep (v : Session) (r : RecvResult BUF_SIZE) : ChildPc × Child → Option Session
  | (.close, d) => some { v with child := some (.welcome, d) }
  | (.welcome, d) => some ⟨v.client.exchange [] sendFromServ, some (.serve, .start d.buf)⟩
  | (.serve, d) =>
    if Takes r v.client.toServer then
      some ⟨v.client.exchange r.data (d.buf.recv r.data).bytes, some (.serve, d.turn r)⟩
    else none

/-- A step; `buf` is the buffer a child begins with. -/
def next (buf : CharArray BUF_SIZE) (v : Session) : SessionLabel → Option Session
  | .fork => match v.child with
    | none => some { v with child := some (.close, ⟨buf, []⟩) }
    | some _ => none
  | .client r => (v.client.step r).map fun c => { v with client := c }
  | .child r => v.child.bind (v.childStep r)

theorem child_of_fork {buf : CharArray BUF_SIZE} {v w : Session} (h : v.next buf .fork = some w) :
    v.child = none := by
  obtain ⟨client, child⟩ := v
  cases child with
  | none => rfl
  | some d => cases h

/-- The sessions as parties that are served in the order in which they came. -/
def parties (buf : CharArray BUF_SIZE) : Parties Session SessionLabel where
  next := next buf
  fresh v := ∃ messageFrom, v = start messageFrom
  waiting v := v.child = none

/-- A client without a child has nothing to receive. -/
def Waits (v : Session) : Prop := v.child = none → v.client.Idle

/-- A session begins with its `fork`. -/
theorem begins (buf : CharArray BUF_SIZE) : (parties buf).Begins Waits where
  fresh := by
    rintro _ ⟨messageFrom, rfl⟩
    exact ⟨fun _ => ⟨rfl, rfl⟩, rfl⟩
  next := by
    intro v l w hv hnext
    have hchild : w.child ≠ none := by
      cases l with
      | fork =>
        obtain ⟨client, child⟩ := v
        obtain rfl : child = none := child_of_fork hnext
        cases hnext
        exact Option.some_ne_none _
      | client r =>
        -- without a child the client waits for its greeting
        obtain ⟨c, hc, rfl⟩ := Option.map_eq_some_iff.mp hnext
        intro hnone
        rw [(hv hnone).step] at hc
        cases hc
      | child r =>
        obtain ⟨⟨pc, d⟩, -, hstep⟩ := Option.bind_eq_some_iff.mp hnext
        cases pc with
        | close =>
          cases hstep
          exact Option.some_ne_none _
        | welcome =>
          cases hstep
          exact Option.some_ne_none _
        | serve =>
          obtain ⟨-, hstep⟩ := Option.ite_none_right_eq_some.mp hstep
          cases hstep
          exact Option.some_ne_none _
    exact ⟨fun hnone => absurd hnone hchild, hchild⟩

end Session

/-! ### The system -/

/-- The processes of the server, and the clients in the order in which they connected. -/
structure System where
  server : Server
  clients : List Client

/-- A step: a client connects, or a process makes a call, which succeeds. -/
inductive SystemLabel
  | connect (messageFrom : CharArray BUF_SIZE)
  | client (k : Nat) (r : RecvResult BUF_SIZE)
  | accept
  | fork
  | child (j : Nat) (r : RecvResult BUF_SIZE)

/-- The number of the connection that is open as `cfd`. -/
def ChildProcess.peer (p : ChildProcess) : Option Nat :=
  match p.cfd.bind p.fds.get? with
  | some (.connection k) => some k
  | _ => none

/-- The bytes a child takes with `r`: only in its loop it receives. -/
def ChildProcess.taken (p : ChildProcess) (r : RecvResult BUF_SIZE) : List UInt8 :=
  if p.pc = .serve then r.data else []

/-- A child with connection `k`; the listening socket is `fd`. -/
structure ChildProcess.Serves (p : ChildProcess) (fd k : Nat) : Prop where
  open_cfd : ∃ n, p.cfd = some n ∧ p.fds.get? n = some (.connection k)
  listening : p.pc = .close → p.fds.get? fd = some .listening
  unsent : p.pc ≠ .serve → p.child.sends = []

theorem ChildProcess.Serves.peer {p : ChildProcess} {fd k : Nat} (h : p.Serves fd k) :
    p.peer = some k := by
  obtain ⟨n, hn, hget⟩ := h.open_cfd
  rw [ChildProcess.peer, hn, Option.bind_some, hget]

namespace System

/-- The server before its loop, without clients. -/
def start (taken : List Bool) (buf : CharArray BUF_SIZE) : System := ⟨.start taken buf, []⟩

variable (s : System)

/-- A step of child `j`, with what it takes from its connection and what it sends there.  What it
    sends is what the step adds to the sends of the child in the model of the server. -/
def childStep (j : Nat) (r : RecvResult BUF_SIZE) : Option System := do
  let p ← s.server.children[j]?
  let k ← p.peer
  let c ← s.clients[k]?
  if p.pc = .serve → Takes r c.toServer then do
    let server ← s.server.next (.child j r)
    let p' ← server.children[j]?
    let given := (p'.child.sends.drop p.child.sends.length).flatten
    return ⟨server, s.clients.set k (c.exchange (p.taken r) given)⟩
  else none

/-- The next state.  `accept` takes the connection that has waited longest, and blocks while none
    waits. -/
def next : SystemLabel → Option System
  | .connect messageFrom => some { s with clients := s.clients ++ [.start messageFrom] }
  | .client k r => do
    let c ← s.clients[k]?
    let c' ← c.step r
    return { s with clients := s.clients.set k c' }
  | .accept =>
    if s.server.accepted < s.clients.length then
      (s.server.next (.accept true)).map fun server => { s with server := server }
    else none
  | .fork => (s.server.next (.fork true)).map fun server => { s with server := server }
  | .child j r => s.childStep j r

/-- What is at the two ends of connection `k`. -/
def session (k : Nat) (c : Client) : Session :=
  ⟨c, s.server.children[k]?.map fun p => (p.pc, p.child)⟩

/-- The connections, in order. -/
def sessions : List Session := s.clients.mapIdx s.session

theorem getElem?_sessions (k : Nat) : s.sessions[k]? = s.clients[k]?.map (s.session k) :=
  List.getElem?_mapIdx

theorem sessions_at {k : Nat} {c : Client} (hc : s.clients[k]? = some c) :
    s.sessions[k]? = some (s.session k c) := by
  rw [getElem?_sessions, hc]
  rfl

/-- How many calls the parent has made in its loop. -/
def turns : Nat := s.server.accepted + s.server.children.length

/-- The invariant: the parent accepts and forks in turn, so that each connection gets the child with
    its number. -/
structure Linked (buf : CharArray BUF_SIZE) : Prop where
  same_buf : s.server.buf = buf
  listening : s.server.fds.get? s.server.fd = some .listening
  accepted_le : s.server.accepted ≤ s.clients.length
  at_accept : s.server.pc = .accept → s.server.accepted = s.server.children.length
  at_fork : s.server.pc = .fork → s.server.accepted = s.server.children.length + 1 ∧
    ∃ n, s.server.cfd = some n ∧ s.server.fds.get? n = some (.connection s.server.children.length)
  running : s.server.pc ≠ .exited
  child : ∀ (j : Nat) p, s.server.children[j]? = some p → p.Serves s.server.fd j
  unserved : ∀ (k : Nat) c, s.clients[k]? = some c → s.server.children.length ≤ k → c.Idle

variable {s} {t : System} {buf : CharArray BUF_SIZE}

/-! ### What a step does to the sessions -/

/-- Only session `k` changes. -/
theorem sessions_eq_set {k : Nat} {w : Session} (hk : k < s.clients.length)
    (hclients : t.clients = s.clients.set k w.client)
    (hself : (t.server.children[k]?.map fun p => (p.pc, p.child)) = w.child)
    (hother : ∀ i, i ≠ k → t.server.children[i]? = s.server.children[i]?) :
    t.sessions = s.sessions.set k w := by
  apply List.ext_getElem?
  intro i
  by_cases hik : i = k
  · subst hik
    have hlen : i < s.sessions.length := by
      rw [sessions, List.length_mapIdx]
      exact hk
    rw [List.getElem?_set_self hlen, getElem?_sessions, hclients, List.getElem?_set_self hk]
    show some (t.session i w.client) = some w
    rw [session, hself]
  · rw [List.getElem?_set_ne (Ne.symm hik), getElem?_sessions, getElem?_sessions, hclients,
      List.getElem?_set_ne (Ne.symm hik)]
    cases s.clients[i]? with
    | none => rfl
    | some c =>
      show some (t.session i c) = some (s.session i c)
      rw [session, session, hother i hik]

/-- A client joins. -/
theorem Linked.connect (h : s.Linked buf) (messageFrom : CharArray BUF_SIZE) :
    ∃ t, s.next (.connect messageFrom) = some t ∧ t.Linked buf ∧
      t.sessions = s.sessions ++ [.start messageFrom] ∧ t.turns = s.turns := by
  -- there are at least as many clients as children, so that the new client has none
  have hlen : s.server.children.length ≤ s.clients.length := by
    have hle := h.accepted_le
    cases hpc : s.server.pc with
    | accept => have := h.at_accept hpc; omega
    | fork => have := (h.at_fork hpc).1; omega
    | exited => exact absurd hpc h.running
  refine ⟨_, rfl, ?_, ?_, rfl⟩
  · refine ⟨h.same_buf, h.listening, ?_, h.at_accept, h.at_fork, h.running, h.child, ?_⟩
    · exact Nat.le_trans h.accepted_le (by rw [List.length_append]; omega)
    · intro k c hc hle
      rcases Nat.lt_or_ge k s.clients.length with hk | hk
      · rw [List.getElem?_append_left hk] at hc
        exact h.unserved k c hc hle
      · rw [List.getElem?_append_right hk, List.getElem?_singleton] at hc
        split at hc
        · cases hc
          exact ⟨rfl, rfl⟩
        · cases hc
  · -- its session is the one behind all others
    show (s.clients ++ [Client.start messageFrom]).mapIdx s.session = _
    rw [List.mapIdx_concat]
    show s.sessions ++ [s.session s.clients.length (.start messageFrom)] = _
    rw [session, List.getElem?_eq_none hlen]
    rfl

/-- A step of a client that is served. -/
theorem Linked.client (h : s.Linked buf) {k : Nat} {c c' : Client} {r : RecvResult BUF_SIZE}
    (hc : s.clients[k]? = some c) (hk : k < s.server.children.length) (hstep : c.step r = some c') :
    ∃ t w, s.next (.client k r) = some t ∧ t.Linked buf ∧
      (s.session k c).next buf (.client r) = some w ∧ t.sessions = s.sessions.set k w ∧
      t.turns = s.turns := by
  have hlen := (List.getElem?_eq_some_iff.mp hc).1
  refine ⟨{ s with clients := s.clients.set k c' }, { s.session k c with client := c' }, ?_, ?_, ?_,
    sessions_eq_set hlen rfl rfl fun _ _ => rfl, rfl⟩
  · show (s.clients[k]?.bind fun c => (c.step r).bind fun c' => _) = _
    rw [hc, Option.bind_some, hstep]
    rfl
  · refine ⟨h.same_buf, h.listening, ?_, h.at_accept, h.at_fork, h.running, h.child, ?_⟩
    · exact h.accepted_le.trans_eq List.length_set.symm
    · -- those without a child are others
      intro i d hd hle
      have hne : k ≠ i := Nat.ne_of_lt (Nat.lt_of_lt_of_le hk hle)
      rw [List.getElem?_set_ne hne] at hd
      exact h.unserved i d hd hle
  · show (c.step r).map _ = _
    rw [hstep]
    rfl

/-- A step of a child on its connection, in the system and in the session. -/
theorem childStep_of_serves {p : ChildProcess} {fd k : Nat} (h : p.Serves fd k) (v : Session)
    {r : RecvResult BUF_SIZE} (htakes : p.pc = .serve → Takes r v.client.toServer) :
    ∃ p', p.step fd r = some p' ∧ p'.Serves fd k ∧ v.childStep r (p.pc, p.child) =
      some ⟨v.client.exchange (p.taken r) (p'.child.sends.drop p.child.sends.length).flatten,
        some (p'.pc, p'.child)⟩ := by
  obtain ⟨n, hn, hget⟩ := h.open_cfd
  have hconn : p.Connected := by
    rw [ChildProcess.Connected, hn, Option.bind_some, hget]
    exact Option.some_ne_none _
  obtain ⟨pc, cfd, fds, d⟩ := p
  cases pc with
  | close =>
    -- what it closes is not its connection
    refine ⟨_, rfl, ⟨⟨n, hn, ?_⟩, fun hpc => (by cases hpc), fun _ => h.unsent fun hpc => ?_⟩, ?_⟩
    · exact Descriptors.get?_close_of_eq_some (h.listening rfl) hget fun hsock => (by cases hsock)
    · cases hpc
    · have hnil : (d.sends.drop d.sends.length).flatten = [] := by
        rw [List.drop_length, List.flatten_nil]
      show _ = some (Session.mk (v.client.exchange [] (d.sends.drop d.sends.length).flatten) _)
      rw [hnil, v.client.exchange_nil]
      rfl
  | welcome =>
    -- it has not sent anything before, so all of `sends` is new
    have hsends : d.sends = [] := h.unsent fun hpc => (by cases hpc)
    refine ⟨_, rfl, ⟨⟨n, hn, hget⟩, fun hpc => (by cases hpc), fun hpc => absurd rfl hpc⟩, ?_⟩
    rw [if_pos hconn]
    show _ = some (Session.mk
      (v.client.exchange [] ((Child.start d.buf).sends.drop d.sends.length).flatten) _)
    rw [hsends]
    rfl
  | serve =>
    -- it has sent one thing more, all of `buf`
    refine ⟨_, if_pos hconn, ⟨⟨n, hn, hget⟩, fun hpc => (by cases hpc), fun hpc => absurd rfl hpc⟩,
      ?_⟩
    have hgiven : ((d.turn r).sends.drop d.sends.length).flatten = (d.buf.recv r.data).bytes := by
      show ((d.sends ++ [(d.buf.recv r.data).bytes]).drop d.sends.length).flatten = _
      rw [List.drop_left, List.flatten_singleton]
    show (if Takes r v.client.toServer then _ else _) = some (Session.mk
      (v.client.exchange r.data ((d.turn r).sends.drop d.sends.length).flatten) _)
    rw [if_pos (htakes rfl), hgiven]

/-- Only in its loop a child receives. -/
theorem takes_of_childStep {v w : Session} {r : RecvResult BUF_SIZE} {pc : ChildPc} {d : Child}
    (h : v.childStep r (pc, d) = some w) (hpc : pc = .serve) : Takes r v.client.toServer := by
  subst hpc
  exact (Option.ite_none_right_eq_some.mp h).1

/-- A step of a child with connection `k`, as the system takes it. -/
theorem childStep_eq {j k : Nat} {p p' : ChildProcess} {c : Client} {r : RecvResult BUF_SIZE}
    (hp : s.server.children[j]? = some p) (hserves : p.Serves s.server.fd k)
    (hc : s.clients[k]? = some c) (htakes : p.pc = .serve → Takes r c.toServer)
    (hstep : p.step s.server.fd r = some p') :
    s.childStep j r = some ⟨{ s.server with children := s.server.children.set j p' },
      s.clients.set k
        (c.exchange (p.taken r) (p'.child.sends.drop p.child.sends.length).flatten)⟩ := by
  have hserver : s.server.next (.child j r) =
      some { s.server with children := s.server.children.set j p' } := by
    show (s.server.children[j]?.bind fun c => (c.step s.server.fd r).bind fun c' => _) = _
    rw [hp, Option.bind_some, hstep]
    rfl
  have hself : (s.server.children.set j p')[j]? = some p' :=
    List.getElem?_set_self (List.getElem?_eq_some_iff.mp hp).1
  show (s.server.children[j]?.bind fun p => p.peer.bind fun k => s.clients[k]?.bind fun c => _) = _
  rw [hp, Option.bind_some, hserves.peer, Option.bind_some, hc, Option.bind_some, if_pos htakes,
    hserver]
  show ((s.server.children.set j p')[j]?.bind fun p' => _) = _
  rw [hself]
  rfl

/-- A step of a child. -/
theorem Linked.child_step (h : s.Linked buf) {j : Nat} {p : ChildProcess} {c : Client}
    {r : RecvResult BUF_SIZE} (hp : s.server.children[j]? = some p) (hc : s.clients[j]? = some c)
    (htakes : p.pc = .serve → Takes r c.toServer) :
    ∃ t w, s.next (.child j r) = some t ∧ t.Linked buf ∧
      (s.session j c).next buf (.child r) = some w ∧ t.sessions = s.sessions.set j w ∧
      t.turns = s.turns := by
  obtain ⟨p', hstep, hserves, hsession⟩ :=
    childStep_of_serves (h.child j p hp) (s.session j c) htakes
  have hlen := (List.getElem?_eq_some_iff.mp hc).1
  have hlenp := (List.getElem?_eq_some_iff.mp hp).1
  refine ⟨_, ⟨_, some (p'.pc, p'.child)⟩, childStep_eq hp (h.child j p hp) hc htakes hstep, ?_, ?_,
    sessions_eq_set hlen rfl ?_ ?_, congrArg (s.server.accepted + ·) List.length_set⟩
  · -- the child changes nothing of the parent, and of the children only itself
    constructor
    · exact h.same_buf
    · exact h.listening
    · exact h.accepted_le.trans_eq List.length_set.symm
    · intro hpc
      exact (h.at_accept hpc).trans List.length_set.symm
    · intro hpc
      show s.server.accepted = (s.server.children.set j p').length + 1 ∧
        ∃ n, s.server.cfd = some n ∧
          s.server.fds.get? n = some (.connection (s.server.children.set j p').length)
      rw [List.length_set]
      exact h.at_fork hpc
    · exact h.running
    · intro i q hq
      rcases Nat.decEq i j with hne | rfl
      · rw [List.getElem?_set_ne (Ne.symm hne)] at hq
        exact h.child i q hq
      · rw [List.getElem?_set_self hlenp] at hq
        cases hq
        exact hserves
    · -- a client that waits is behind all the children, so it is not this one
      intro i d hd hle
      have hle : s.server.children.length ≤ i := (Nat.le_of_eq List.length_set.symm).trans hle
      rw [List.getElem?_set_ne (Nat.ne_of_lt (Nat.lt_of_lt_of_le hlenp hle))] at hd
      exact h.unserved i d hd hle
  · show (s.session j c).child.bind _ = _
    rw [session, hp]
    exact hsession
  · show ((s.server.children.set j p')[j]?.map fun p => (p.pc, p.child)) = _
    rw [List.getElem?_set_self hlenp]
    rfl
  · intro i hi
    exact List.getElem?_set_ne (Ne.symm hi)

/-- The `fork` for the connection that was accepted last. -/
theorem Linked.fork (h : s.Linked buf) (hpc : s.server.pc = .fork) :
    ∃ t c w, s.next .fork = some t ∧ t.Linked buf ∧
      s.clients[s.server.children.length]? = some c ∧
      (s.session s.server.children.length c).next buf .fork = some w ∧
      t.sessions = s.sessions.set s.server.children.length w ∧ t.turns = s.turns + 1 := by
  obtain ⟨haccepted, n, hn, hget⟩ := h.at_fork hpc
  have hle := h.accepted_le
  -- the client was accepted and has no child yet
  have hlen : s.server.children.length < s.clients.length := by omega
  have hserver : s.server.next (.fork true) = some (s.server.fork true) := if_pos hpc
  let c := s.clients[s.server.children.length]
  refine ⟨{ s with server := s.server.fork true }, c, ⟨c, some (.close, ⟨buf, []⟩)⟩, ?_, ?_,
    List.getElem?_eq_getElem hlen, ?_, sessions_eq_set hlen ?_ ?_ ?_,
    congrArg (s.server.accepted + ·) List.length_append⟩
  · show (s.server.next (.fork true)).map _ = _
    rw [hserver]
    rfl
  · constructor
    · exact h.same_buf
    · exact h.listening
    · exact h.accepted_le
    · intro _
      show s.server.accepted = (s.server.children ++ [_]).length
      rw [List.length_append]
      exact haccepted
    · intro hfork
      cases hfork
    · intro hexited
      cases hexited
    · intro i p hp
      rcases Nat.lt_or_ge i s.server.children.length with hi | hi
      · have hp : (s.server.children ++ [_])[i]? = some p := hp
        rw [List.getElem?_append_left hi] at hp
        exact h.child i p hp
      · -- the new child got the connection that was accepted last
        have hp : (s.server.children ++ [_])[i]? = some p := hp
        rw [List.getElem?_append_right hi, List.getElem?_singleton] at hp
        obtain ⟨hi', hp⟩ := Option.ite_none_right_eq_some.mp hp
        cases hp
        have hij : i = s.server.children.length := by omega
        rw [hij]
        exact ⟨⟨n, hn, hget⟩, fun _ => h.listening, fun _ => rfl⟩
    · intro i d hd hi
      have hi : (s.server.children ++ [_]).length ≤ i := hi
      rw [List.length_append] at hi
      exact h.unserved i d hd (by omega)
  · rw [session, List.getElem?_eq_none (Nat.le_refl _)]
    rfl
  · exact (List.set_getElem_self hlen).symm
  · -- the new child has a copy of the `buf` of the parent
    show ((s.server.children ++ [_])[s.server.children.length]?.map fun p => (p.pc, p.child)) = _
    rw [List.getElem?_concat_length]
    exact congrArg (fun b => some (ChildPc.close, Child.mk b [])) h.same_buf
  · -- the other children stay at their places
    intro i hi
    show (s.server.children ++ [_])[i]? = _
    rcases Nat.lt_or_gt_of_ne hi with hi | hi
    · exact List.getElem?_append_left hi
    · rw [List.getElem?_eq_none (by rw [List.length_append]; exact hi),
        List.getElem?_eq_none (Nat.le_of_lt hi)]

/-- An `accept`, which the sessions do not see. -/
theorem Linked.accept (h : s.Linked buf) (hpc : s.server.pc = .accept)
    (hwaits : s.server.accepted < s.clients.length) :
    ∃ t, s.next .accept = some t ∧ t.Linked buf ∧ t.sessions = s.sessions ∧ t.turns = s.turns + 1 ∧
      t.server.pc = .fork ∧ t.server.children = s.server.children := by
  have haccepted := h.at_accept hpc
  have hserver : s.server.next (.accept true) = some (s.server.accept true) := if_pos hpc
  refine ⟨{ s with server := s.server.accept true }, ?_, ?_, rfl, Nat.succ_add _ _, rfl, rfl⟩
  · -- the first client without a connection is the one that is accepted
    show (if _ then _ else _) = _
    rw [if_pos hwaits, hserver]
    rfl
  · constructor
    · exact h.same_buf
    · exact Descriptors.get?_add_of_eq_some _ h.listening
    · exact hwaits
    · intro hfork
      cases hfork
    · -- the lowest free descriptor is its connection
      intro _
      refine ⟨congrArg (· + 1) haccepted, s.server.fds.lowestFree, rfl, ?_⟩
      show (s.server.fds.add (.connection s.server.accepted)).get? s.server.fds.lowestFree = _
      rw [Descriptors.get?_add_lowestFree, haccepted]
      rfl
    · intro hexited
      cases hexited
    · exact h.child
    · exact h.unserved

/-! ### The system and the sessions -/

/-- At the start nobody is connected. -/
theorem linked_start (taken : List Bool) (buf : CharArray BUF_SIZE) :
    (start taken buf).Linked buf where
  same_buf := rfl
  listening := Descriptors.get?_add_lowestFree _ _
  accepted_le := Nat.le_refl 0
  at_accept _ := rfl
  at_fork h := by cases h
  running h := by cases h
  child j p hp := by cases hp
  unserved k c hc := by cases hc

/-- A session has a child exactly when its number is below that of the children. -/
theorem child_eq_none_iff {k : Nat} {v : Session} (hv : s.sessions[k]? = some v) :
    v.child = none ↔ s.server.children.length ≤ k := by
  rw [getElem?_sessions] at hv
  obtain ⟨c, -, rfl⟩ := Option.map_eq_some_iff.mp hv
  show (s.server.children[k]?.map _) = none ↔ _
  rw [Option.map_eq_none_iff, List.getElem?_eq_none_iff]

/-- What the sessions see of a step: one of them takes it, or there is a new one, or nothing. -/
inductive Moves (buf : CharArray BUF_SIZE) (s t : System) : SystemLabel → Prop
  | connect {messageFrom : CharArray BUF_SIZE}
      (sessions : t.sessions = s.sessions ++ [.start messageFrom])
      (turns : t.turns = s.turns) : Moves buf s t (.connect messageFrom)
  | accept (sessions : t.sessions = s.sessions) (turns : t.turns = s.turns + 1) :
      Moves buf s t .accept
  | fork {v w : Session} (at_k : s.sessions[s.server.children.length]? = some v)
      (step : v.next buf .fork = some w)
      (sessions : t.sessions = s.sessions.set s.server.children.length w)
      (turns : t.turns = s.turns + 1) : Moves buf s t .fork
  | client {k : Nat} {r : RecvResult BUF_SIZE} {v w : Session} (at_k : s.sessions[k]? = some v)
      (served : v.child ≠ none) (step : v.next buf (.client r) = some w)
      (sessions : t.sessions = s.sessions.set k w) (turns : t.turns = s.turns) :
      Moves buf s t (.client k r)
  | child {k : Nat} {r : RecvResult BUF_SIZE} {v w : Session} (at_k : s.sessions[k]? = some v)
      (served : v.child ≠ none) (step : v.next buf (.child r) = some w)
      (sessions : t.sessions = s.sessions.set k w) (turns : t.turns = s.turns) :
      Moves buf s t (.child k r)

/-- **A step of the system**, and what the sessions see of it: each session is the connection of
    one client, and no step of the whole touches two of them. -/
theorem Linked.next (h : s.Linked buf) {l : SystemLabel} (ht : s.next l = some t) :
    t.Linked buf ∧ Moves buf s t l := by
  cases l with
  | connect messageFrom =>
    obtain ⟨u, hu, hlinked, hsessions, hturns⟩ := h.connect messageFrom
    cases hu.symm.trans ht
    exact ⟨hlinked, .connect hsessions hturns⟩
  | client k r =>
    obtain ⟨c, hc, ht'⟩ := Option.bind_eq_some_iff.mp ht
    obtain ⟨c', hstep, -⟩ := Option.bind_eq_some_iff.mp ht'
    -- who takes a step has a child already
    have hk : k < s.server.children.length := by
      by_contra hge
      rw [(h.unserved k c hc (Nat.not_lt.mp hge)).step] at hstep
      cases hstep
    have hv := s.sessions_at hc
    obtain ⟨u, w, hu, hlinked, hnext, hsessions, hturns⟩ := h.client hc hk hstep
    cases hu.symm.trans ht
    refine ⟨hlinked, .client hv (fun hnone => ?_) hnext hsessions hturns⟩
    exact absurd ((child_eq_none_iff hv).mp hnone) (Nat.not_le.mpr hk)
  | accept =>
    obtain ⟨hwaits, ht'⟩ := Option.ite_none_right_eq_some.mp ht
    obtain ⟨server, hserver, -⟩ := Option.map_eq_some_iff.mp ht'
    obtain ⟨u, hu, hlinked, hsessions, hturns, -⟩ :=
      h.accept (Option.ite_none_right_eq_some.mp hserver).1 hwaits
    cases hu.symm.trans ht
    exact ⟨hlinked, .accept hsessions hturns⟩
  | fork =>
    obtain ⟨server, hserver, -⟩ := Option.map_eq_some_iff.mp ht
    obtain ⟨u, c, w, hu, hlinked, hc, hnext, hsessions, hturns⟩ :=
      h.fork (Option.ite_none_right_eq_some.mp hserver).1
    cases hu.symm.trans ht
    exact ⟨hlinked, .fork (s.sessions_at hc) hnext hsessions hturns⟩
  | child j r =>
    obtain ⟨p, hp, ht'⟩ := Option.bind_eq_some_iff.mp ht
    obtain ⟨k, hk, ht'⟩ := Option.bind_eq_some_iff.mp ht'
    obtain ⟨c, hc, ht'⟩ := Option.bind_eq_some_iff.mp ht'
    -- the connection of child `j` is that of client `j`
    obtain rfl : j = k := Option.some.inj ((h.child j p hp).peer.symm.trans hk)
    obtain ⟨u, w, hu, hlinked, hnext, hsessions, hturns⟩ :=
      h.child_step hp hc (Option.ite_none_right_eq_some.mp ht').1
    cases hu.symm.trans ht
    have hv := s.sessions_at hc
    have hj := (List.getElem?_eq_some_iff.mp hp).1
    refine ⟨hlinked, .child hv (fun hnone => ?_) hnext hsessions hturns⟩
    exact absurd ((child_eq_none_iff hv).mp hnone) (Nat.not_le.mpr hj)

/-- A step of the system is one of the sessions, or none. -/
theorem Moves.step {l : SystemLabel} (h : Moves buf s t l) :
    t.sessions = s.sessions ∨ (Session.parties buf).Step s.sessions t.sessions := by
  cases h with
  | @connect messageFrom hsessions =>
    rw [hsessions]
    exact .inr (.join ⟨messageFrom, rfl⟩)
  | accept hsessions => exact .inl hsessions
  | fork hv hnext hsessions =>
    rw [hsessions]
    refine .inr (.move (a := .fork) hv hnext fun _ i d hi hd hwait => ?_)
    exact absurd ((child_eq_none_iff hd).mp hwait) (Nat.not_le.mpr hi)
  | client hv hserved hnext hsessions =>
    rw [hsessions]
    exact .inr (.move (a := .client _) hv hnext fun hwait => absurd hwait hserved)
  | child hv hserved hnext hsessions =>
    rw [hsessions]
    exact .inr (.move (a := .child _) hv hnext fun hwait => absurd hwait hserved)

theorem Linked.run (h : s.Linked buf) {ls : List SystemLabel}
    (hrun : Lib.run System.next s ls = some t) : t.Linked buf :=
  run_keeps (I := fun s => s.Linked buf) (fun _ _ _ hs ht => (hs.next ht).1) h hrun

/-- A step of the sessions can be brought about. -/
theorem Linked.leads (h : s.Linked buf) {vs : List Session}
    (hstep : (Session.parties buf).Step s.sessions vs) :
    ∃ t, Leads System.next s t ∧ t.Linked buf ∧ t.sessions = vs := by
  cases hstep with
  | join hfresh =>
    obtain ⟨messageFrom, rfl⟩ := hfresh
    obtain ⟨t, ht, hlinked, hsessions, -⟩ := h.connect messageFrom
    exact ⟨t, .of_next ht, hlinked, hsessions⟩
  | @move k v w l hv hnext hturn =>
    have hv' := hv
    rw [getElem?_sessions] at hv'
    obtain ⟨c, hc, rfl⟩ := Option.map_eq_some_iff.mp hv'
    cases l with
    | fork =>
      have hwaits := (child_eq_none_iff hv).mp (Session.child_of_fork hnext)
      have hlen := (List.getElem?_eq_some_iff.mp hc).1
      -- all those before it have a child, so it is the next one to get one
      obtain rfl : k = s.server.children.length := by
        by_contra hne
        have hlt : s.server.children.length < k := by omega
        have hd := s.sessions_at (List.getElem?_eq_getElem (Nat.lt_trans hlt hlen))
        exact hturn (Session.child_of_fork hnext) _ _ hlt hd
          ((child_eq_none_iff hd).mpr (Nat.le_refl _))
      cases hpc : s.server.pc with
      -- the parent accepts first, and forks with the session it had in view before
      | accept =>
        have hle := h.at_accept hpc
        obtain ⟨u, hu, hlinked, hsessions, -, hpc', hchildren⟩ := h.accept hpc (by omega)
        obtain ⟨t, c', w', ht, hlinked', hc', hnext', hsessions', -⟩ := hlinked.fork hpc'
        rw [hchildren] at hc' hnext' hsessions'
        have hd := u.sessions_at hc'
        rw [hsessions, hv] at hd
        rw [← Option.some.inj hd] at hnext'
        cases hnext'.symm.trans hnext
        rw [hsessions] at hsessions'
        exact ⟨t, (Leads.of_next hu).trans (.of_next ht), hlinked', hsessions'⟩
      | fork =>
        obtain ⟨t, c', w', ht, hlinked, hc', hnext', hsessions, -⟩ := h.fork hpc
        cases hc.symm.trans hc'
        cases hnext'.symm.trans hnext
        exact ⟨t, .of_next ht, hlinked, hsessions⟩
      | exited => exact absurd hpc h.running
    | client r =>
      obtain ⟨c', hstep, -⟩ := Option.map_eq_some_iff.mp hnext
      -- a client without a child could not have taken the step
      have hk : k < s.server.children.length := by
        by_contra hge
        have hidle := (h.unserved k c hc (Nat.not_lt.mp hge)).step r
        cases hidle.symm.trans hstep
      obtain ⟨t, w', ht, hlinked, hnext', hsessions, -⟩ := h.client hc hk hstep
      cases hnext'.symm.trans hnext
      exact ⟨t, .of_next ht, hlinked, hsessions⟩
    | child r =>
      obtain ⟨⟨pc, d⟩, hchild, hstep⟩ := Option.bind_eq_some_iff.mp hnext
      obtain ⟨p, hp, hpd⟩ := Option.map_eq_some_iff.mp hchild
      cases hpd
      obtain ⟨t, w', ht, hlinked, hnext', hsessions, -⟩ :=
        h.child_step hp hc (takes_of_childStep hstep)
      cases hnext'.symm.trans hnext
      exact ⟨t, .of_next ht, hlinked, hsessions⟩

/-- **The system is its sessions**: each of its steps is one of theirs or none, and each of theirs
    can be brought about. -/
theorem refines (buf : CharArray BUF_SIZE) :
    Refines System.next (Session.parties buf).Step fun s vs => s.Linked buf ∧ s.sessions = vs where
  sound := by
    rintro s l t _ ⟨h, rfl⟩ ht
    obtain ⟨hlinked, hmoves⟩ := h.next ht
    rcases hmoves.step with heq | hstep
    · exact ⟨t.sessions, ⟨hlinked, rfl⟩, heq ▸ .refl⟩
    · exact ⟨t.sessions, ⟨hlinked, rfl⟩, .single hstep⟩
  complete := by
    rintro s _ vs ⟨h, rfl⟩ hstep
    exact h.leads hstep
  functional := by
    rintro s _ _ ⟨-, rfl⟩ ⟨-, rfl⟩
    rfl

theorem alone_iff (buf : CharArray BUF_SIZE) (v : Session) : (Session.parties buf).Alone v ↔
    ∃ messageFrom, Leads (Session.next buf) (.start messageFrom) v := by
  constructor
  · rintro ⟨_, ⟨messageFrom, rfl⟩, h⟩
    exact ⟨messageFrom, h⟩
  · rintro ⟨messageFrom, h⟩
    exact ⟨_, ⟨messageFrom, rfl⟩, h⟩

/-- What can be at the ends of a connection, one client and a child of its own can come to alone. -/
theorem alone_of_leads {taken : List Bool} (h : Leads System.next (start taken buf) t) {k : Nat}
    {v : Session} (hv : t.sessions[k]? = some v) :
    ∃ messageFrom, Leads (Session.next buf) (.start messageFrom) v := by
  obtain ⟨ls, hrun⟩ := h
  obtain ⟨vs, ⟨-, hvs⟩, hwalk⟩ :=
    (refines buf).sound_run (c := []) ⟨linked_start taken buf, rfl⟩ hrun
  obtain ⟨halone, -⟩ := ((Session.begins buf).walk_iff vs).mp hwalk
  exact (alone_iff buf v).mp (halone v (hvs ▸ List.mem_of_getElem? hv))

/-- **The clients have nothing to do with each other.**  What can be at the ends of the connections,
    in any interleaving, is any combination of what one client and a child of its own can come to
    alone, with the one condition that no client is served before one that connected earlier. -/
theorem sessions_iff (taken : List Bool) (buf : CharArray BUF_SIZE) (vs : List Session) :
    (∃ t, Leads System.next (start taken buf) t ∧ t.sessions = vs) ↔
      (∀ v ∈ vs, ∃ messageFrom, Leads (Session.next buf) (.start messageFrom) v) ∧
        vs.Pairwise fun v w => v.child = none → w.child = none := by
  have hiff := (refines buf).leads_iff (s := start taken buf) ⟨linked_start taken buf, rfl⟩ vs
  rw [show (start taken buf).sessions = [] from rfl, (Session.begins buf).walk_iff] at hiff
  simp only [alone_iff] at hiff
  refine Iff.trans ?_ hiff
  constructor
  · rintro ⟨t, ⟨ls, hrun⟩, hvs⟩
    exact ⟨t, ⟨ls, hrun⟩, (linked_start taken buf).run hrun, hvs⟩
  · rintro ⟨t, hleads, -, hvs⟩
    exact ⟨t, hleads, hvs⟩

end System

end EltexHomeworks.MultiUserTcpEcho
