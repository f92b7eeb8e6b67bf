import EltexHomeworks.Net.MultiUserUdpEcho.ClientMoves

namespace EltexHomeworks.MultiUserUdpEcho

open EltexHomeworks.Lib

/-!
# Multi-user UDP echo — sessions are isolated

The parent keeps one address and one buffer for all clients; what a child gets is the copy of the
moment of its fork.  `Sessions` is kept by the moves of the server too, so it holds in every
reachable state (`sessions_of_reachable`), and `isolated` reads off it what the children serve, what
they receive, and what the clients receive and print.
-/

variable {ι : Type} {s t : State ι} {i : ι}

/-! ### The server moves -/

/-- What the parent can receive is an application. -/
theorem Known.of_dst_server {p : Packet ι} (h : Known s p) (hdst : p.dst = .server) :
    ∃ k, p = applicationOf k := by
  cases h with
  | application k sent => exact ⟨k, rfl⟩
  | message k j serves sent => cases hdst
  | echo k j data serves length_eq => cases hdst

/-- What a child can receive is a message of the client it serves. -/
theorem Known.of_dst_child {p : Packet ι} {j : Nat} (h : Known s p) (hdst : p.dst = .child j) :
    ∃ k, p = messageOf k (.child j) ∧ Serves s j k ∧ p ∈ (s.clients k).sent := by
  cases h with
  | application k sent => cases hdst
  | message k j serves sent =>
    cases hdst
    exact ⟨k, rfl, serves, sent⟩
  | echo k j data serves length_eq => cases hdst

/-- A child keeps its client. -/
theorem Serves.setChild {j k : Nat} {c d : Child ι} (hc : s.children[j]? = some c)
    (hd : d.client = c.client) (h : Serves s k i) : Serves (s.setChild j d) k i := by
  obtain ⟨e, he, hi⟩ := h
  by_cases hk : j = k
  · subst hk
    have hce : c = e := Option.some.inj (hc.symm.trans he)
    refine ⟨d, ?_, by rw [hd, hce, hi]⟩
    exact List.getElem?_set_self (List.getElem?_eq_some_iff.mp hc).1
  · exact ⟨e, by rw [← he]; exact List.getElem?_set_ne hk, hi⟩

variable [DecidableEq ι]

/-- The parent receives an application: what was counted in the network is now counted at the
    parent. -/
theorem Sessions.accept (hs : Sessions s) {p : Packet ι} (hpc : s.parent.forking = false)
    (hp : p ∈ s.net) (hdst : p.dst = .server) :
    Sessions ((s.drop p).setParent (s.parent.accept p)) := by
  obtain ⟨k, rfl⟩ := (hs.net p hp).of_dst_server hdst
  refine hs.of_grows ⟨fun h => h, fun _ _ h => h⟩
    (fun q hq => .inl (Multiset.mem_of_mem_erase hq)) (fun _ => ⟨k, rfl, rfl⟩)
    (fun c hc => .inl hc) fun i => ?_
  -- the parent was not about to fork for anyone
  have hold : ¬ (s.drop (applicationOf k)).parent.ForksFor i := fun h => by
    cases hpc.symm.trans h.1
  have hnew := s.parent.forksFor_accept (applicationOf k) i
  -- the counts of client `k` go down with the datagram and up again with the parent
  have happ : applicationOf k = applicationOf i ↔ (applicationOf k).src = .client i := by
    simp [applicationOf]
  have hcon : (applicationOf k).Concerns i ↔ (applicationOf k).src = .client i := by
    simp [applicationOf, Packet.Concerns]
  have happs := State.apps_drop (i := i) hp
  have htokens := State.tokens_drop (i := i) hp
  have happs' := (s.drop (applicationOf k)).apps_setParent i (s.parent.accept (applicationOf k))
  have htokens' :=
    (s.drop (applicationOf k)).tokens_setParent i (s.parent.accept (applicationOf k))
  rw [if_congr happ rfl rfl] at happs
  rw [if_congr hcon rfl rfl] at htokens
  rw [if_neg hold, if_congr hnew rfl rfl] at happs' htokens'
  refine (hs.session i).keep rfl (fun j hj => hj) ?_ ?_ ?_
  · exact Nat.le_of_eq (congrArg (· + s.kids i) (happs'.trans happs))
  · exact Nat.le_of_eq (htokens'.trans htokens)
  · exact fun _ hhi => ⟨fun q hq => hhi.net q (Multiset.mem_of_mem_erase hq), hhi.child⟩

/-- The parent forks: what was counted at the parent is now counted among the children. -/
theorem Sessions.fork (hs : Sessions s) (hpc : s.parent.forking = true) :
    Sessions ((s.setParent s.parent.forked).addChild s.parent) := by
  obtain ⟨k, hk, hlast⟩ := hs.parent hpc
  -- the new child comes behind the others, which keep their numbers
  have hserves : ∀ {j i}, Serves s j i →
      Serves ((s.setParent s.parent.forked).addChild s.parent) j i := by
    rintro j i ⟨c, hc, hi⟩
    have hj := (List.getElem?_eq_some_iff.mp hc).1
    exact ⟨c, by rw [← hc]; exact List.getElem?_append_left hj, hi⟩
  refine hs.of_grows ⟨hserves, fun _ _ h => h⟩ (fun q hq => .inl hq) (fun h => by cases h) ?_ ?_
  · intro c hc
    rcases List.mem_append.mp hc with hc | hc
    · exact .inl hc
    · rw [List.mem_singleton.mp hc]
      exact .inr ⟨k, hk, hlast, fun p hp => by cases hp⟩
  intro i
  have hold : s.parent.ForksFor i ↔ s.parent.client = .client i := and_iff_right hpc
  have hnew := s.parent.not_forksFor_forked i
  have happs := s.apps_setParent i s.parent.forked
  have htokens := s.tokens_setParent i s.parent.forked
  rw [if_congr hold rfl rfl, if_neg hnew] at happs htokens
  refine (hs.session i).keep rfl (fun j => hserves) ?_ ?_ ?_
  · rw [State.apps_addChild, State.kids_addChild, State.kids_setParent]
    omega
  · rw [State.tokens_addChild]
    exact Nat.le_of_eq htokens
  · intro hkids hhi
    refine ⟨hhi.net, fun c hc hi => ?_⟩
    rcases List.mem_append.mp hc with hc | hc
    · exact hhi.child c hc hi
    · -- the client of the new child had none before
      rw [List.mem_singleton.mp hc] at hi
      have hforked := (hs.session i).forked
      rw [if_pos hi.1] at happs
      omega

/-- `fork` fails. -/
theorem Sessions.noFork (hs : Sessions s) : Sessions (s.setParent s.parent.forked) := by
  refine hs.of_grows ⟨fun h => h, fun _ _ h => h⟩ (fun q hq => .inl hq) (fun h => by cases h)
    (fun c hc => .inl hc) fun i => ?_
  have hnew := s.parent.not_forksFor_forked i
  have happs := s.apps_setParent i s.parent.forked
  have htokens := s.tokens_setParent i s.parent.forked
  rw [if_neg hnew] at happs htokens
  refine (hs.session i).keep rfl (fun j hj => hj) ?_ ?_ fun _ hhi => ⟨hhi.net, hhi.child⟩
  · rw [State.kids_setParent]
    omega
  · omega

/-- A datagram is lost. -/
theorem Sessions.lose (hs : Sessions s) (p : Packet ι) : Sessions (s.drop p) := by
  refine hs.of_grows ⟨fun h => h, fun _ _ h => h⟩
    (fun q hq => .inl (Multiset.mem_of_mem_erase hq)) hs.parent (fun c hc => .inl hc) fun i => ?_
  refine (hs.session i).keep rfl (fun j hj => hj) ?_ ?_ ?_
  · exact Nat.add_le_add_right (State.apps_drop_le p) _
  · exact State.tokens_drop_le p
  · exact fun _ hhi => ⟨fun q hq => hhi.net q (Multiset.mem_of_mem_erase hq), hhi.child⟩

/-- A child sends its buffer: the token is in the datagram. -/
theorem Sessions.echo (hs : Sessions s) {j : Nat} {c : Child ι} (hc : s.children[j]? = some c)
    (hpc : c.sending = true) :
    Sessions ((s.setChild j { c with sending := false, buf := c.buf.set 0 0 }).send
      ⟨.child j, c.client, c.buf.bytes⟩) := by
  have hmem := List.mem_of_getElem? hc
  obtain ⟨k, hk, hlast, hreceived⟩ := hs.children c hmem
  have hgrows : Grows s ((s.setChild j { c with sending := false, buf := c.buf.set 0 0 }).send
      ⟨.child j, c.client, c.buf.bytes⟩) :=
    ⟨fun h => h.setChild hc rfl, fun _ _ h => h⟩
  refine hs.of_grows hgrows ?_ hs.parent ?_ ?_
  · -- what is in flight now is the echo, which its client can have
    intro p hp
    rcases Multiset.mem_cons.mp hp with rfl | hp
    · have hecho := Known.echo k j _ (hgrows.serves ⟨c, hc, hk⟩) c.buf.length_eq
      rw [← hk] at hecho
      exact .inr hecho
    · exact .inl hp
  · intro d hd
    rcases List.mem_or_eq_of_mem_set hd with hd | rfl
    · exact .inl hd
    · exact .inr ⟨k, hk, hlast, hreceived⟩
  intro i
  have htokens := State.tokens_setChild (i := i) (d := { c with
    sending := false, buf := c.buf.set 0 0 }) hc
  refine (hs.session i).keep rfl (fun j => hgrows.serves) ?_ ?_ ?_
  · -- no application was sent, and the child serves whom it served
    rw [State.apps_send, if_neg (fun h => by cases congrArg Packet.src h)]
    exact Nat.le_of_eq (congrArg _ (State.kids_setChild hc rfl))
  · rw [State.tokens_send]
    simp [Child.Answers, Packet.Concerns, hpc] at htokens ⊢
    omega
  · -- what is sent is what the child had in its buffer, and then it has nothing to send
    intro _ hhi
    constructor
    · intro p hp hdst
      rcases Multiset.mem_cons.mp hp with rfl | hp
      · exact hhi.child c hmem ⟨hdst, hpc⟩
      · exact hhi.net p hp hdst
    · intro d hd hi
      rcases List.mem_or_eq_of_mem_set hd with hd | rfl
      · exact hhi.child d hd hi
      · cases hi.2

/-- A child receives a message: the token is with the child. -/
theorem Sessions.hear (hs : Sessions s) {j : Nat} {c : Child ι} {p : Packet ι}
    (hc : s.children[j]? = some c) (hpc : c.sending = false) (hp : p ∈ s.net)
    (hdst : p.dst = .child j) :
    Sessions ((s.drop p).setChild j { c with
      sending := true
      buf := c.buf.recv p.data
      received := c.received ++ [p] }) := by
  have hmem := List.mem_of_getElem? hc
  obtain ⟨k, hk, hlast, hreceived⟩ := hs.children c hmem
  obtain ⟨k', rfl, ⟨c', hc', hk'⟩, hsent⟩ := (hs.net p hp).of_dst_child hdst
  -- the sender is the client the child serves
  have hcc : c = c' := Option.some.inj (hc.symm.trans hc')
  have hkk : k = k' := Addr.client.inj (by rw [← hk, hcc, hk'])
  subst hkk
  have hgrows : Grows s ((s.drop (messageOf k (.child j))).setChild j { c with
      sending := true
      buf := c.buf.recv dataToSend
      received := c.received ++ [messageOf k (.child j)] }) :=
    ⟨fun h => Serves.setChild (s := s.drop _) hc rfl h, fun _ _ h => h⟩
  refine hs.of_grows hgrows (fun q hq => .inl (Multiset.mem_of_mem_erase hq)) hs.parent ?_ ?_
  · intro d hd
    rcases List.mem_or_eq_of_mem_set hd with hd | rfl
    · exact .inl hd
    · refine .inr ⟨k, hk, hlast, fun q hq => ?_⟩
      rcases List.mem_append.mp hq with hq | hq
      · exact hreceived q hq
      · rw [List.mem_singleton.mp hq]
        exact ⟨rfl, hsent⟩
  intro i
  have hdrop := State.tokens_drop (i := i) hp
  have htokens := State.tokens_setChild (s := s.drop (messageOf k (.child j))) (i := i)
    (d := { c with
      sending := true
      buf := c.buf.recv dataToSend
      received := c.received ++ [messageOf k (.child j)] }) hc
  refine (hs.session i).keep rfl (fun j => hgrows.serves) ?_ ?_ ?_
  · apply Nat.add_le_add (State.apps_drop_le _)
    exact Nat.le_of_eq (State.kids_setChild (s := s.drop _) hc rfl)
  · have hcon : (messageOf k (.child j)).Concerns i ↔ c.client = .client i := by
      rw [hk]
      simp [messageOf, Packet.Concerns]
    have hold : ¬ c.Answers i := fun h => by cases hpc.symm.trans h.2
    rw [if_congr hcon rfl rfl] at hdrop
    rw [if_neg hold] at htokens
    simp only [Child.Answers, and_true] at htokens
    exact Nat.le_of_eq (htokens.trans hdrop)
  · intro _ hhi
    refine ⟨fun q hq => hhi.net q (Multiset.mem_of_mem_erase hq), fun d hd hi => ?_⟩
    rcases List.mem_or_eq_of_mem_set hd with hd | rfl
    · exact hhi.child d hd hi
    · -- the message brings its own NUL
      have hlen : dataToSend.length ≤ BUF_SIZE := by decide
      have hnul : 0 ∈ dataToSend := by decide
      exact c.buf.text_bytes_recv hlen hnul

/-! ### Every interleaving -/

/-- Every move keeps the sessions. -/
theorem Sessions.moves (hs : Sessions s) (h : Moves s t) : Sessions t := by
  cases h with
  | apply i hpc => exact hs.apply hpc
  | shake i p hpc hp hdst => exact hs.shake hp hdst
  | ask i hpc => exact hs.ask hpc
  | print i p hpc hp hdst => exact hs.print hpc hp hdst
  | accept p hpc hp hdst => exact hs.accept hpc hp hdst
  | fork hpc => exact hs.fork hpc
  | noFork hpc => exact hs.noFork
  | echo j c hc hpc => exact hs.echo hc hpc
  | hear j c p hc hpc hp hdst => exact hs.hear hc hpc hp hdst
  | lose p => exact hs.lose p

variable {buf : CharArray BUF_SIZE} {bufs : ι → CharArray BUF_SIZE}

/-- Before the first application there is no token. -/
theorem sessions_start : Sessions (State.start buf bufs) where
  net p hp := absurd hp (Multiset.notMem_zero p)
  parent h := by cases h
  children c hc := absurd hc List.not_mem_nil
  session i :=
    have happs : (State.start buf bufs).apps i = 0 := rfl
    have htokens : (State.start buf bufs).tokens i = 0 := rfl
    { forked := by rw [happs]; exact Nat.zero_le 1
      single := by rw [htokens]; exact Nat.zero_le 1
      atPc := ⟨happs, htokens⟩
      exchanges := fun e he => absurd he List.not_mem_nil }

/-- The sessions are kept by every interleaving. -/
theorem sessions_of_reachable (h : (udpEcho buf bufs).Reachable s) : Sessions s := by
  have hinv : (udpEcho buf bufs).Invariant Sessions := by
    constructor
    · rintro s rfl
      exact sessions_start
    · exact fun s l t hs h => hs.moves (next_cases h)
  exact hinv.of_reachable h

/-- Sessions are isolated from one another: child and client of a session exchange datagrams with
    nobody else, and what a client prints is what it sent last. -/
structure Isolated (s : State ι) : Prop where
  /-- A child serves the client whose application made the parent fork it. -/
  serves : ∀ c ∈ s.children, ∃ i, c.client = .client i ∧ c.last = some (applicationOf i)
  /-- What a child has sent goes to the client it serves. -/
  sends : ∀ p ∈ s.net, ∀ j, p.src = .child j → ∃ c, s.children[j]? = some c ∧ p.dst = c.client
  /-- What a child has received was sent by the client it serves. -/
  receives : ∀ c ∈ s.children, ∀ p ∈ c.received,
    ∃ i, c.client = .client i ∧ p.src = .client i ∧ p ∈ (s.clients i).sent
  /-- What a client has received in its loop was sent by a child forked for an application of its
      own. -/
  answers : ∀ i, ∀ e ∈ (s.clients i).exchanges,
    ∃ j c, s.children[j]? = some c ∧ c.last = some (applicationOf i) ∧ e.answer.src = .child j
  /-- What a client has printed is the text it had last sent to the sender of the answer. -/
  prints : ∀ i, ∀ e ∈ (s.clients i).exchanges,
    ∃ q, e.asked = some q ∧ q.dst = e.answer.src ∧ e.printed = text q.data

/-- **Session isolation.**  In every state that clients, parent, children and network reach
    together, with datagrams lost, delayed and reordered, the sessions are isolated. -/
theorem isolated (h : (udpEcho buf bufs).Reachable s) : Isolated s := by
  have hs := sessions_of_reachable h
  constructor
  · intro c hc
    obtain ⟨i, hi, hlast, -⟩ := hs.children c hc
    exact ⟨i, hi, hlast⟩
  · intro p hp j hsrc
    cases hs.net p hp with
    | application i sent => cases hsrc
    | message i k serves sent => cases hsrc
    | echo i k data serves length_eq =>
      cases hsrc
      obtain ⟨c, hc, hi⟩ := serves
      exact ⟨c, hc, hi.symm⟩
  · intro c hc p hp
    obtain ⟨i, hi, -, hreceived⟩ := hs.children c hc
    exact ⟨i, hi, hreceived p hp⟩
  · intro i e he
    obtain ⟨j, q, ⟨c, hc, hi⟩, hsrc, -⟩ := (hs.session i).exchanges e he
    -- the child was forked for the client it serves
    obtain ⟨k, hk, hlast, -⟩ := hs.children c (List.mem_of_getElem? hc)
    have hik : i = k := Addr.client.inj (hi.symm.trans hk)
    exact ⟨j, c, hc, hik ▸ hlast, hsrc⟩
  · intro i e he
    obtain ⟨j, q, -, hsrc, hasked, hdst, hprinted⟩ := (hs.session i).exchanges e he
    exact ⟨q, hasked, hdst.trans hsrc.symm, hprinted⟩

/-- A client applies, is answered by its child, sends a message and prints the echo. -/
theorem isolated_after_print :
    let buf : CharArray BUF_SIZE := ⟨List.replicate BUF_SIZE 0, List.length_replicate⟩
    let first : Packet Unit := ⟨.child 0, .client (), (buf.recv application).bytes⟩
    let second : Packet Unit :=
      ⟨.child 0, .client (), ((((buf.recv application).set 0 0).recv dataToSend)).bytes⟩
    ∃ s, Lib.run State.next (State.start buf fun _ => buf)
        [.client () first, .parent (applicationOf ()) true, .parent first true, .child 0 first,
          .client () first, .client () first, .child 0 (messageOf () (.child 0)),
          .child 0 first, .client () second] = some s ∧
      (s.clients ()).exchanges.length = 1 ∧ Isolated s := by
  intro buf first second
  have hrun : (Lib.run State.next (State.start buf fun _ => buf)
      [.client () first, .parent (applicationOf ()) true, .parent first true, .child 0 first,
        .client () first, .client () first, .child 0 (messageOf () (.child 0)),
        .child 0 first, .client () second]).map
      (fun s => (s.clients ()).exchanges.length) = some 1 := by decide +kernel
  obtain ⟨s, hs, hlen⟩ := Option.map_eq_some_iff.mp hrun
  exact ⟨s, hs, hlen, isolated (TransitionSystem.Reachable.run (.init rfl) hs)⟩

end EltexHomeworks.MultiUserUdpEcho
