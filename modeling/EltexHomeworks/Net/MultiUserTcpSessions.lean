import EltexHomeworks.Net.MultiUserTcpSystem

namespace EltexHomeworks.MultiUserTcpEcho

open EltexHomeworks.Lib

/-!
# Multi-user TCP echo — what the clients get, and when

* `streams` — a client gets the welcome and then what its own child made of its own bytes, in their
  order, none of them lost;
* `answered` — the parent gets to a client with the second of its two calls for it, whatever the
  children do, and a client that is served prints again within a bounded number of the steps that it
  and its child make, whatever the others do.
-/

namespace Client

/-- A client takes a step when it is to send, or when there is something to receive. -/
theorem exists_step {c : Client} (h : c.pc = .send ∨ ∃ r, Takes r c.toClient) :
    ∃ r c', c.step r = some c' := by
  rcases h with hpc | ⟨r, htakes⟩
  · refine ⟨.error, c.send, ?_⟩
    rw [step, hpc]
  · cases hpc : c.pc with
    | greeting =>
      refine ⟨r, c.receive r, ?_⟩
      rw [step, hpc]
      exact if_pos htakes
    | send =>
      refine ⟨r, c.send, ?_⟩
      rw [step, hpc]
    | recv =>
      refine ⟨r, c.receive r, ?_⟩
      rw [step, hpc]
      exact if_pos htakes

/-- How many messages a client has sent: it prints before it sends. -/
def messages (c : Client) : Nat :=
  if c.pc = .send then c.printed.length - 1 else c.printed.length

variable {c : Client}

theorem messages_receive (h : c.pc ≠ .send) (r : RecvResult BUF_SIZE) :
    (c.receive r).messages = c.messages := by
  show (c.printed ++ [_]).length - 1 = _
  rw [List.length_append, List.length_singleton, Nat.add_sub_cancel, messages, if_neg h]

theorem messages_send (h : c.pc = .send) (hprinted : c.printed ≠ []) :
    c.send.messages = c.messages + 1 := by
  show c.printed.length = _
  rw [messages, if_pos h, Nat.sub_add_cancel (List.length_pos_of_ne_nil hprinted)]

/-- What a step of a client is. -/
theorem step_eq_some {c' : Client} {r : RecvResult BUF_SIZE} (h : c.step r = some c') :
    c.pc = .send ∧ c' = c.send ∨ c.pc ≠ .send ∧ Takes r c.toClient ∧ c' = c.receive r := by
  rw [step] at h
  cases hpc : c.pc with
  | send =>
    rw [hpc] at h
    exact .inl ⟨rfl, (Option.some.inj h).symm⟩
  | greeting =>
    rw [hpc] at h
    obtain ⟨htakes, h⟩ := Option.ite_none_right_eq_some.mp h
    exact .inr ⟨fun h => (by cases h), htakes, (Option.some.inj h).symm⟩
  | recv =>
    rw [hpc] at h
    obtain ⟨htakes, h⟩ := Option.ite_none_right_eq_some.mp h
    exact .inr ⟨fun h => (by cases h), htakes, (Option.some.inj h).symm⟩

end Client

/-- What a child has sent, the welcome and what came after it. -/
theorem Child.flatten_sends_serve (buf : CharArray BUF_SIZE) (rs : List (RecvResult BUF_SIZE)) :
    (serve buf rs).sends.flatten = sendFromServ ++ (serve buf rs).echoed := by
  have hsends : ∃ replies, (serve buf rs).sends = sendFromServ :: replies := by
    induction rs using List.reverseRecOn with
    | nil => exact ⟨[], rfl⟩
    | append_singleton rs r ih =>
      obtain ⟨replies, hreplies⟩ := ih
      rw [serve_append_singleton, sends_turn, hreplies]
      exact ⟨_, List.cons_append⟩
  obtain ⟨replies, hreplies⟩ := hsends
  rw [echoed, hreplies]
  rfl

namespace Session

/-- What the child has sent, one entry for each `send`. -/
def replies (v : Session) : List (List UInt8) :=
  match v.child with
  | none => []
  | some (_, d) => d.sends

/-- The child of a session whose `recv`s returned `rs`. -/
def ChildAfter (buf : CharArray BUF_SIZE) (rs : List (RecvResult BUF_SIZE)) (v : Session) : Prop :=
  match v.child with
  | some (.serve, d) => d = .serve buf rs
  | some (_, d) => d = ⟨buf, []⟩ ∧ rs = []
  | none => rs = []

/-- The invariant of the two streams; `rs` is what the `recv`s of the child returned. -/
structure Carries (buf : CharArray BUF_SIZE) (rs : List (RecvResult BUF_SIZE)) (v : Session) :
    Prop where
  chunks : ∀ r ∈ rs, r.data ≠ []
  printed : v.client.pc = .send → v.client.printed ≠ []
  messages : v.client.sent = (List.replicate v.client.messages messageTo).flatten
  requests : v.client.sent = received rs ++ v.client.toServer
  replies : v.client.got ++ v.client.toClient = v.replies.flatten
  child : v.ChildAfter buf rs

variable {buf : CharArray BUF_SIZE} {v w : Session} {rs : List (RecvResult BUF_SIZE)}

theorem carries_start (buf messageFrom : CharArray BUF_SIZE) :
    (start messageFrom).Carries buf [] where
  chunks r hr := by cases hr
  printed h := by cases h
  messages := rfl
  requests := rfl
  replies := rfl
  child := rfl

/-- What a `recv` takes and what is left. -/
theorem append_drop_of_takes {r : RecvResult BUF_SIZE} {stream : List UInt8} (h : Takes r stream) :
    r.data ++ stream.drop r.data.length = stream :=
  List.prefix_iff_eq_append.mp h.2

/-- A step of the client. -/
theorem Carries.client_step (h : v.Carries buf rs) {c : Client} {r : RecvResult BUF_SIZE}
    (hstep : v.client.step r = some c) : ({ v with client := c } : Session).Carries buf rs := by
  rcases Client.step_eq_some hstep with ⟨hpc, rfl⟩ | ⟨hpc, htakes, rfl⟩
  · -- one more message is sent and in flight
    refine ⟨h.chunks, fun hpc => (by cases hpc), ?_, ?_, h.replies, h.child⟩
    · show v.client.sent ++ messageTo = (List.replicate v.client.send.messages messageTo).flatten
      rw [Client.messages_send hpc (h.printed hpc), List.replicate_succ', List.flatten_append,
        List.flatten_singleton, ← h.messages]
    · show v.client.sent ++ messageTo = received rs ++ (v.client.toServer ++ messageTo)
      rw [h.requests, List.append_assoc]
  · -- what is received now was in flight
    refine ⟨h.chunks, fun _ => List.append_ne_nil_of_right_ne_nil _ (List.cons_ne_nil _ _), ?_,
      h.requests, ?_, h.child⟩
    · show v.client.sent = (List.replicate (v.client.receive r).messages messageTo).flatten
      rw [Client.messages_receive hpc]
      exact h.messages
    · show v.client.got ++ r.data ++ v.client.toClient.drop r.data.length = v.replies.flatten
      rw [List.append_assoc, append_drop_of_takes htakes]
      exact h.replies

/-- A step of the child; in its loop it takes one more chunk. -/
theorem Carries.child_step (h : v.Carries buf rs) {pc : ChildPc} {d : Child}
    (hchild : v.child = some (pc, d)) {r : RecvResult BUF_SIZE}
    (hstep : v.childStep r (pc, d) = some w) : ∃ rs, w.Carries buf rs := by
  obtain ⟨c, child⟩ := v
  cases hchild
  cases pc with
  | close =>
    cases hstep
    exact ⟨rs, h.chunks, h.printed, h.messages, h.requests, h.replies, h.child⟩
  | welcome =>
    -- the welcome is the first thing the client is sent
    obtain ⟨rfl, rfl⟩ := h.child
    cases hstep
    refine ⟨[], h.chunks, h.printed, h.messages, h.requests, ?_, rfl⟩
    show c.got ++ (c.toClient ++ sendFromServ) = [sendFromServ].flatten
    have hreplies : c.got ++ c.toClient = [] := h.replies
    rw [← List.append_assoc, hreplies]
    rfl
  | serve =>
    -- the chunk that `recv` takes goes into `buf`, and all of `buf` is sent back
    obtain ⟨htakes, hstep⟩ := Option.ite_none_right_eq_some.mp hstep
    cases hstep
    obtain rfl : d = .serve buf rs := h.child
    refine ⟨rs ++ [r], ?_, h.printed, h.messages, ?_, ?_, ?_⟩
    · rw [List.forall_mem_append, List.forall_mem_singleton]
      exact ⟨h.chunks, htakes.1⟩
    · show c.sent = received (rs ++ [r]) ++ c.toServer.drop r.data.length
      rw [received_append_singleton, List.append_assoc, append_drop_of_takes htakes]
      exact h.requests
    · show c.got ++ (c.toClient ++ ((Child.serve buf rs).buf.recv r.data).bytes) =
        ((Child.serve buf rs).sends ++ [((Child.serve buf rs).buf.recv r.data).bytes]).flatten
      have hreplies : c.got ++ c.toClient = (Child.serve buf rs).sends.flatten := h.replies
      rw [← List.append_assoc, hreplies, List.flatten_append, List.flatten_singleton]
    · exact (Child.serve_append_singleton buf rs r).symm

/-- **What a session carries** in every state: the `recv`s of the child account for all bytes that
    have left the stream of the client, and for all that have come back. -/
theorem carries (messageFrom : CharArray BUF_SIZE) (h : Leads (next buf) (start messageFrom) v) :
    ∃ rs, v.Carries buf rs := by
  obtain ⟨ls, hrun⟩ := h
  refine run_keeps (I := fun v => ∃ rs, Carries buf rs v) ?_ ⟨[], carries_start buf messageFrom⟩
    hrun
  rintro v l w ⟨rs, h⟩ hnext
  cases l with
  | fork =>
    obtain ⟨c, child⟩ := v
    obtain rfl : child = none := child_of_fork hnext
    cases hnext
    exact ⟨rs, h.chunks, h.printed, h.messages, h.requests, h.replies, rfl, h.child⟩
  | client r =>
    obtain ⟨c, hstep, rfl⟩ := Option.map_eq_some_iff.mp hnext
    exact ⟨rs, h.client_step hstep⟩
  | child r =>
    obtain ⟨⟨pc, d⟩, hchild, hstep⟩ := Option.bind_eq_some_iff.mp hnext
    exact h.child_step hchild hstep

/-! ### What is left until the client prints -/

/-- The steps a child has ahead of it before its loop. -/
def beforeLoop : Option (ChildPc × Child) → Nat
  | some (.close, _) => 2
  | some (.welcome, _) => 1
  | _ => 0

/-- A bound for the steps of client and child until the client prints. -/
def left (v : Session) : Nat :=
  v.client.toServer.length + beforeLoop v.child + if v.client.pc = .send then 9 else 0

theorem left_le (v : Session) : v.left ≤ v.client.toServer.length + 11 := by
  have hchild : beforeLoop v.child ≤ 2 := by
    cases v.child with
    | none => exact Nat.zero_le 2
    | some d =>
      obtain ⟨pc, d⟩ := d
      cases pc with
      | close => exact Nat.le_refl 2
      | welcome => exact Nat.le_succ 1
      | serve => exact Nat.zero_le 2
  rw [left]
  split <;> omega

/-- **A step of a session** that has a child prints, or leaves fewer to be done until then. -/
theorem left_next {l : SessionLabel} (hserved : v.child ≠ none) (h : v.next buf l = some w) :
    v.client.printed.length < w.client.printed.length ∨
      w.client.printed = v.client.printed ∧ w.left < v.left := by
  cases l with
  | fork => exact absurd (child_of_fork h) hserved
  | client r =>
    obtain ⟨c, hstep, rfl⟩ := Option.map_eq_some_iff.mp h
    rcases Client.step_eq_some hstep with ⟨hpc, rfl⟩ | ⟨hpc, htakes, rfl⟩
    · -- the message makes eight bytes more for the child
      refine .inr ⟨rfl, ?_⟩
      have hlen : (v.client.toServer ++ messageTo).length = v.client.toServer.length + 8 :=
        List.length_append
      show (v.client.toServer ++ messageTo).length + beforeLoop v.child + 0 < left v
      rw [left, if_pos hpc]
      omega
    · refine .inl ?_
      show _ < (v.client.printed ++ [_]).length
      rw [List.length_append]
      exact Nat.lt_succ_self _
  | child r =>
    obtain ⟨c, child⟩ := v
    obtain ⟨⟨pc, d⟩, hchild, hstep⟩ := Option.bind_eq_some_iff.mp h
    cases hchild
    -- the child brings no text to the screen, but each of its steps is one less
    refine .inr ?_
    cases pc with
    | close =>
      cases hstep
      refine ⟨rfl, ?_⟩
      show c.toServer.length + 1 + _ < c.toServer.length + 2 + _
      exact Nat.add_lt_add_right (Nat.lt_succ_self _) _
    | welcome =>
      cases hstep
      refine ⟨rfl, ?_⟩
      show c.toServer.length + 0 + _ < c.toServer.length + 1 + _
      exact Nat.add_lt_add_right (Nat.lt_succ_self _) _
    | serve =>
      obtain ⟨htakes, hstep⟩ := Option.ite_none_right_eq_some.mp hstep
      cases hstep
      refine ⟨rfl, ?_⟩
      -- it takes a byte at least
      have hpos := List.length_pos_of_ne_nil htakes.1
      have hle := htakes.2.length_le
      have hlt : (c.toServer.drop r.data.length).length < c.toServer.length := by
        rw [List.length_drop]
        have hle : r.data.length ≤ c.toServer.length := hle
        omega
      show (c.toServer.drop r.data.length).length + 0 + _ < c.toServer.length + 0 + _
      exact Nat.add_lt_add_right hlt _

/-- A client that waits for bytes has some in flight, or its child is about to send. -/
def Live (v : Session) : Prop :=
  v.client.pc ≠ .send → v.client.toClient = [] → ∀ d, v.child = some (.serve, d) →
    v.client.toServer ≠ []

/-- **Nobody waits for ever.**  Client or child of a session that has a child can take a step. -/
theorem live (messageFrom : CharArray BUF_SIZE) (h : Leads (next buf) (start messageFrom) v) :
    v.Live := by
  obtain ⟨ls, hrun⟩ := h
  refine run_keeps (I := Live) ?_ (fun _ _ d hd => by cases hd) hrun
  intro v l w hlive hnext
  cases l with
  -- each write puts bytes on their way, for client or child
  | fork =>
    obtain ⟨c, child⟩ := v
    obtain rfl : child = none := child_of_fork hnext
    cases hnext
    exact fun _ _ d hd => by cases hd
  | client r =>
    obtain ⟨c, hstep, rfl⟩ := Option.map_eq_some_iff.mp hnext
    rcases Client.step_eq_some hstep with ⟨hpc, rfl⟩ | ⟨hpc, htakes, rfl⟩
    · exact fun _ _ _ _ => List.append_ne_nil_of_right_ne_nil _ (List.cons_ne_nil _ _)
    · exact fun hpc => absurd rfl hpc
  | child r =>
    obtain ⟨⟨pc, d⟩, hchild, hstep⟩ := Option.bind_eq_some_iff.mp hnext
    cases pc with
    | close =>
      cases hstep
      exact fun _ _ d hd => by cases hd
    | welcome =>
      -- what it has just sent is in flight
      cases hstep
      intro _ hnil
      exact absurd hnil (List.append_ne_nil_of_right_ne_nil _ (List.cons_ne_nil _ _))
    -- an echo has all bytes of `buf`
    | serve =>
      obtain ⟨-, hstep⟩ := Option.ite_none_right_eq_some.mp hstep
      cases hstep
      intro _ hnil
      have hlen := congrArg List.length (List.append_eq_nil_iff.mp hnil).2
      rw [CharArray.length_eq] at hlen
      cases hlen

/-- Some of the bytes that are there can be taken. -/
theorem exists_takes {stream : List UInt8} (h : stream ≠ []) : ∃ r, Takes r stream := by
  obtain ⟨b, bs, rfl⟩ := List.exists_cons_of_ne_nil h
  exact ⟨.chunk [b] (List.cons_ne_nil b []) (show 1 ≤ BUF_SIZE by decide), List.cons_ne_nil b [],
    bs, rfl⟩

end Session

/-- The steps of the parent. -/
def SystemLabel.ofParent : SystemLabel → Bool
  | .accept => true
  | .fork => true
  | _ => false

/-- The steps of client `k` and its child. -/
def SystemLabel.ofSession (k : Nat) : SystemLabel → Bool
  | .client i _ => i == k
  | .child i _ => i == k
  | _ => false

/-- A buffer of zeros. -/
def zeros : CharArray BUF_SIZE := ⟨List.replicate BUF_SIZE 0, List.length_replicate⟩

/-- A client connects, and gets its child and the welcome. -/
def welcoming : List SystemLabel :=
  [.connect zeros, .accept, .fork, .child 0 .error, .child 0 .error]

namespace System

variable {s t : System} {buf : CharArray BUF_SIZE}

/-- **The streams of a client.**  Whatever the other clients do, what a client that is served has
    sent is what its own child has received and what is in flight, in this order, and what it has
    got, with what is in flight, is the welcome and what that child made of it. -/
theorem streams (taken : List Bool) (h : Leads System.next (start taken buf) t) {k : Nat}
    {c : Client} {p : ChildProcess} (hc : t.clients[k]? = some c)
    (hp : t.server.children[k]? = some p) (hpc : p.pc = .serve) :
    ∃ rs : List (RecvResult BUF_SIZE), p.child = .serve buf rs ∧ (∀ r ∈ rs, r.data ≠ []) ∧
      (List.replicate c.messages messageTo).flatten = received rs ++ c.toServer ∧
      c.got ++ c.toClient = sendFromServ ++ (Child.serve buf rs).echoed := by
  obtain ⟨messageFrom, hleads⟩ := alone_of_leads h (t.sessions_at hc)
  obtain ⟨rs, hcarries⟩ := Session.carries messageFrom hleads
  have hchild : (t.session k c).child = some (p.pc, p.child) := by
    rw [session, hp]
    rfl
  have hafter := hcarries.child
  rw [Session.ChildAfter, hchild, hpc] at hafter
  have hserve : p.child = .serve buf rs := hafter
  have hreplies := hcarries.replies
  rw [Session.replies, hchild] at hreplies
  have hsends : c.got ++ c.toClient = p.child.sends.flatten := hreplies
  refine ⟨rs, hserve, hcarries.chunks, hcarries.messages.symm.trans hcarries.requests, ?_⟩
  rw [hsends, hserve, Child.flatten_sends_serve]

/-- The first client sends its message, which its child receives in two parts; of the two replies it
    has received the first 100 bytes. -/
theorem streams_split :
    let got (d : List UInt8) (h : d ≠ [] ∧ d.length ≤ BUF_SIZE) : RecvResult BUF_SIZE :=
      .chunk d h.1 h.2
    let ls := welcoming ++ [.client 0 (got sendFromServ (by decide)), .client 0 .error,
      .child 0 (got [72, 105, 32] (by decide)), .child 0 (got [73, 108, 121, 97, 0] (by decide)),
      .client 0 (got (messageTo.take 3 ++ List.replicate 97 0) (by decide))]
    ∃ t c p rs, Lib.run System.next (start [true, true, true] zeros) ls = some t ∧
      t.clients[0]? = some c ∧ t.server.children[0]? = some p ∧
      c.messages = 1 ∧ c.got.length = 108 ∧
      p.child = Child.serve zeros rs ∧ rs.length = 2 ∧ messageTo = received rs ++ c.toServer ∧
      c.got ++ c.toClient = sendFromServ ++ (Child.serve zeros rs).echoed := by
  intro got ls
  have hrun : ((Lib.run System.next (start [true, true, true] zeros) ls).bind fun t =>
      t.clients[0]?.bind fun c => t.server.children[0]?.map fun p =>
        (c.messages, c.got.length, p.pc, p.child.sends.length)) = some (1, 108, .serve, 3) := by
    decide +kernel
  obtain ⟨t, ht, hrun⟩ := Option.bind_eq_some_iff.mp hrun
  obtain ⟨c, hc, hrun⟩ := Option.bind_eq_some_iff.mp hrun
  obtain ⟨p, hp, heq⟩ := Option.map_eq_some_iff.mp hrun
  obtain ⟨hmessages, hgot, hpc, hsends⟩ : c.messages = 1 ∧ c.got.length = 108 ∧ p.pc = .serve ∧
    p.child.sends.length = 3 := by simpa using heq
  obtain ⟨rs, hserve, -, hsent, hreplies⟩ := streams [true, true, true] ⟨ls, ht⟩ hc hp hpc
  rw [hserve, Child.length_sends_serve] at hsends
  rw [hmessages] at hsent
  exact ⟨t, c, p, rs, ht, hc, hp, hmessages, hgot, hserve, Nat.succ.inj hsends, hsent, hreplies⟩

/-! ### The turn of a client -/

/-- Every call of the parent counts. -/
theorem Linked.turns_run (h : s.Linked buf) {ls : List SystemLabel}
    (hrun : Lib.run System.next s ls = some t) :
    t.turns = s.turns + ls.countP SystemLabel.ofParent := by
  induction ls generalizing s with
  | nil =>
    cases hrun
    rfl
  | cons l ls ih =>
    obtain ⟨u, hu, hrest⟩ := run_cons_eq_some.mp hrun
    obtain ⟨hlinked, hmoves⟩ := h.next hu
    rw [ih hlinked hrest]
    cases hmoves with
    | connect _ hturns => rw [hturns, List.countP_cons_of_neg Bool.false_ne_true]
    | accept _ hturns =>
      rw [hturns, List.countP_cons_of_pos rfl, Nat.add_right_comm, Nat.add_assoc]
    | fork _ _ _ hturns =>
      rw [hturns, List.countP_cons_of_pos rfl, Nat.add_right_comm, Nat.add_assoc]
    | client _ _ _ _ hturns => rw [hturns, List.countP_cons_of_neg Bool.false_ne_true]
    | child _ _ _ _ hturns => rw [hturns, List.countP_cons_of_neg Bool.false_ne_true]

/-- The parent has forked for a client when it has made both calls for it. -/
theorem Linked.lt_children_iff (h : s.Linked buf) (k : Nat) :
    k < s.server.children.length ↔ 2 * k + 2 ≤ s.turns := by
  rw [turns]
  cases hpc : s.server.pc with
  | accept =>
    have := h.at_accept hpc
    omega
  | fork =>
    have := (h.at_fork hpc).1
    omega
  | exited => exact absurd hpc h.running

/-- What a step is for a session that has a child. -/
theorem Moves.at_session {l : SystemLabel} (h : Moves buf s t l) {k : Nat} {v : Session}
    (hv : s.sessions[k]? = some v) (hserved : v.child ≠ none) :
    (l.ofSession k = true ∧ ∃ l' w, v.next buf l' = some w ∧ t.sessions[k]? = some w) ∨
      (l.ofSession k = false ∧ t.sessions[k]? = some v) := by
  have hk := (List.getElem?_eq_some_iff.mp hv).1
  have hset : ∀ {i : Nat} {v' w : Session} {l' : SessionLabel}, s.sessions[i]? = some v' →
      v'.next buf l' = some w → t.sessions = s.sessions.set i w →
      ((i == k) = true ∧ ∃ l' w, v.next buf l' = some w ∧ t.sessions[k]? = some w) ∨
        ((i == k) = false ∧ t.sessions[k]? = some v) := by
    intro i v' w l' hv' hnext hsessions
    rw [hsessions]
    rcases Nat.decEq i k with hne | rfl
    · exact .inr ⟨beq_false_of_ne hne, (List.getElem?_set_ne hne).trans hv⟩
    · cases hv'.symm.trans hv
      exact .inl ⟨beq_self_eq_true i, l', w, hnext, List.getElem?_set_self hk⟩
  cases h with
  | connect hsessions =>
    rw [hsessions]
    exact .inr ⟨rfl, (List.getElem?_append_left hk).trans hv⟩
  | accept hsessions =>
    rw [hsessions]
    exact .inr ⟨rfl, hv⟩
  | fork hv' hnext hsessions =>
    rcases hset hv' hnext hsessions with ⟨heq, -⟩ | ⟨-, ht⟩
    · -- the session that gets a child had none
      rw [eq_of_beq heq] at hv'
      cases hv'.symm.trans hv
      exact absurd (Session.child_of_fork hnext) hserved
    · exact .inr ⟨rfl, ht⟩
  | client hv' _ hnext hsessions => exact hset hv' hnext hsessions
  | child hv' _ hnext hsessions => exact hset hv' hnext hsessions

/-- Session `k` has a child, and its client has printed `n` times or more. -/
def Printed (buf : CharArray BUF_SIZE) (k n : Nat) (s : System) : Prop :=
  s.Linked buf ∧ ∃ v, s.sessions[k]? = some v ∧ v.child ≠ none ∧ n ≤ v.client.printed.length

/-- A bound for the steps of client `k` and its child until the client prints. -/
def left (k : Nat) (s : System) : Nat := (s.sessions[k]?.map Session.left).getD 0

/-- A step for session `k`: it is its own and brings it nearer to the next `printf`, or it is not
    its own and changes nothing there. -/
theorem Printed.next {k n : Nat} (h : Printed buf k n s) {l : SystemLabel}
    (ht : s.next l = some t) :
    Printed buf k n t ∧ (l.ofSession k = true → ¬ Printed buf k (n + 1) s →
        Printed buf k (n + 1) t ∨ left k t < left k s) ∧
      (l.ofSession k = false → left k t = left k s) := by
  obtain ⟨hlinked, v, hv, hserved, hn⟩ := h
  obtain ⟨hlinked', hmoves⟩ := hlinked.next ht
  rcases hmoves.at_session hv hserved with ⟨hown, l', w, hnext, hw⟩ | ⟨hother, hw⟩
  · have hchild := (Session.begins buf).next v l' w (fun h => absurd h hserved) hnext
    have hleft : left k s = v.left ∧ left k t = w.left := by
      rw [left, left, hv, hw]
      exact ⟨rfl, rfl⟩
    rw [hleft.1, hleft.2, hown]
    rcases Session.left_next hserved hnext with hlt | ⟨heq, hlt⟩
    · have hprinted : n + 1 ≤ w.client.printed.length := by omega
      exact ⟨⟨hlinked', w, hw, hchild.2, by omega⟩,
        fun _ _ => .inl ⟨hlinked', w, hw, hchild.2, hprinted⟩, fun h => (by cases h)⟩
    · exact ⟨⟨hlinked', w, hw, hchild.2, heq ▸ hn⟩, fun _ _ => .inr hlt, fun h => (by cases h)⟩
  · refine ⟨⟨hlinked', v, hw, hserved, hn⟩, fun h => ?_, fun _ => ?_⟩
    · rw [hother] at h
      cases h
    · rw [left, left, hv, hw]

/-- **A client that is served prints again** after a bounded number of steps that it and its child
    make, whatever steps the others make meanwhile. -/
theorem Printed.run {k n : Nat} (h : Printed buf k n s) {ls : List SystemLabel}
    (hrun : Lib.run System.next s ls = some t)
    (hm : left k s < ls.countP (SystemLabel.ofSession k)) : Printed buf k (n + 1) t :=
  reached_of_measure (I := Printed buf k n) (G := Printed buf k (n + 1))
    (p := SystemLabel.ofSession k) (left k) (fun _ _ _ hs ht => (hs.next ht).1)
    (fun _ _ _ hs ht => (hs.next ht).1)
    (fun _ _ _ hs hG hl ht => (hs.next ht).2.1 hl hG)
    (fun _ _ _ hs _ hl ht => .inr (Nat.le_of_eq ((hs.next ht).2.2 hl))) h hrun hm

/-- The parent does not wait while a client waits for it. -/
theorem Linked.parent_goes_on (h : s.Linked buf) {k : Nat} (hk : k < s.clients.length)
    (hwaits : s.server.children.length ≤ k) :
    (s.next .accept).isSome ∨ (s.next .fork).isSome := by
  cases hpc : s.server.pc with
  | accept =>
    have haccepted := h.at_accept hpc
    obtain ⟨t, ht, -⟩ := h.accept hpc (by omega)
    exact .inl (Option.isSome_of_eq_some ht)
  | fork =>
    obtain ⟨t, c, w, ht, -⟩ := h.fork hpc
    exact .inr (Option.isSome_of_eq_some ht)
  | exited => exact absurd hpc h.running

/-- A client and its child do not both wait. -/
theorem Linked.session_goes_on (h : s.Linked buf) {k : Nat} {c : Client} {p : ChildProcess}
    (hc : s.clients[k]? = some c) (hp : s.server.children[k]? = some p)
    (hlive : (s.session k c).Live) :
    ∃ r, (s.next (.client k r)).isSome ∨ (s.next (.child k r)).isSome := by
  have hclient : c.pc = .send ∨ (∃ r, Takes r c.toClient) →
      ∃ r, (s.next (.client k r)).isSome ∨ (s.next (.child k r)).isSome := by
    intro hstep
    obtain ⟨r, c', hstep⟩ := Client.exists_step hstep
    obtain ⟨t, w, ht, -⟩ := h.client hc (List.getElem?_eq_some_iff.mp hp).1 hstep
    exact ⟨r, .inl (Option.isSome_of_eq_some ht)⟩
  have hchild : (∃ r, p.pc = .serve → Takes r c.toServer) →
      ∃ r, (s.next (.client k r)).isSome ∨ (s.next (.child k r)).isSome := by
    rintro ⟨r, htakes⟩
    obtain ⟨t, w, ht, -⟩ := h.child_step hp hc htakes
    exact ⟨r, .inr (Option.isSome_of_eq_some ht)⟩
  -- a client that is to send can, and so can one that has something to read
  by_cases hpc : c.pc = .send
  · exact hclient (.inl hpc)
  · by_cases hnil : c.toClient = []
    · by_cases hserve : p.pc = .serve
      · -- otherwise it has nothing to read, and its child has
        have hsome : (s.session k c).child = some (.serve, p.child) := by
          rw [session, hp, ← hserve]
          rfl
        obtain ⟨r, htakes⟩ := Session.exists_takes (hlive hpc hnil p.child hsome)
        exact hchild ⟨r, fun _ => htakes⟩
      · exact hchild ⟨.error, fun h => absurd h hserve⟩
    · exact hclient (.inr (Session.exists_takes hnil))

/-- **Every client is answered.**  The parent has forked for client `k` exactly when it has made
    `2 * k + 2` calls, and does not wait before; a client with a child and that child do not both
    wait, and when they have made more steps than there were bytes for the child, and eleven, the
    client has printed again.  All of this is so whatever the other clients do or fail to do. -/
theorem answered (taken : List Bool) {ls : List SystemLabel}
    (hrun : Lib.run System.next (start taken buf) ls = some t) {k : Nat} {c : Client}
    (hc : t.clients[k]? = some c) :
    (k < t.server.children.length ↔ 2 * k + 2 ≤ ls.countP SystemLabel.ofParent) ∧
      (t.server.children.length ≤ k → (t.next .accept).isSome ∨ (t.next .fork).isSome) ∧
      (k < t.server.children.length →
        (∃ r, (t.next (.client k r)).isSome ∨ (t.next (.child k r)).isSome) ∧
        ∀ ls' u, Lib.run System.next t ls' = some u →
          c.toServer.length + 11 < ls'.countP (SystemLabel.ofSession k) →
          ∃ c', u.clients[k]? = some c' ∧ c.printed.length < c'.printed.length) := by
  have hstart := linked_start taken buf
  have hlinked := hstart.run hrun
  have hturns := hstart.turns_run hrun
  have hv := t.sessions_at hc
  refine ⟨?_, hlinked.parent_goes_on (List.getElem?_eq_some_iff.mp hc).1, fun hk => ⟨?_, ?_⟩⟩
  · -- what the parent has forked for is counted by its calls
    rw [hlinked.lt_children_iff, hturns]
    show _ ≤ 0 + _ ↔ _
    rw [Nat.zero_add]
  · -- the session is one of those that a client and its child have alone
    obtain ⟨messageFrom, hleads⟩ := alone_of_leads ⟨ls, hrun⟩ hv
    exact hlinked.session_goes_on hc (List.getElem?_eq_getElem hk) (Session.live messageFrom hleads)
  · intro ls' u hrun' hm
    have hserved : (t.session k c).child ≠ none := fun hnone =>
      absurd ((child_eq_none_iff hv).mp hnone) (Nat.not_le.mpr hk)
    -- each step of the two uses up some of what is left until the client prints
    have hprinted : Printed buf k c.printed.length t :=
      ⟨hlinked, _, hv, hserved, Nat.le_refl c.printed.length⟩
    have hleft : left k t ≤ c.toServer.length + 11 := by
      rw [left, hv]
      exact (t.session k c).left_le
    obtain ⟨-, v, hv', -, hlt⟩ := hprinted.run hrun' (Nat.lt_of_le_of_lt hleft hm)
    rw [getElem?_sessions] at hv'
    obtain ⟨c', hc', rfl⟩ := Option.map_eq_some_iff.mp hv'
    exact ⟨c', hc', hlt⟩

/-- The first client, welcomed, has printed after twelve steps of it and its child. -/
theorem answered_welcomed :
    ∃ (t : System) (c : Client),
      Lib.run System.next (start [true, true, true] zeros) welcoming = some t ∧
      t.clients[0]? = some c ∧ c.toServer = [] ∧
      ∀ ls' u, Lib.run System.next t ls' = some u →
        c.toServer.length + 11 < ls'.countP (SystemLabel.ofSession 0) →
        ∃ c', u.clients[0]? = some c' ∧ c.printed.length < c'.printed.length := by
  have hrun : Lib.run System.next (start [true, true, true] zeros) welcoming = some _ := rfl
  refine ⟨_, _, hrun, rfl, rfl, ?_⟩
  exact ((answered [true, true, true] hrun rfl).2.2 (Nat.succ_pos 0)).2

end System

end EltexHomeworks.MultiUserTcpEcho
