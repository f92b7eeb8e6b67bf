import EltexHomeworks.Net.MultiUserUdpEcho.Sessions

namespace EltexHomeworks.MultiUserUdpEcho

open EltexHomeworks.Lib

/-!
# Multi-user UDP echo — the moves of a client keep the sessions

A client takes the source of whatever it receives for its server.  That this is always the child
that serves it rests on the token: while the client is about to send there is none, so what it
receives next can only be the answer to that message.

What a move does to the sessions it is not about is the same argument each time, and stated once as
`Session.keep`: neither the applications and children of the client nor its tokens become more.
-/

variable {ι : Type} {s t : State ι} {i : ι}

/-! ### What only grows -/

/-- No child is taken from its client, and no datagram is unsent. -/
structure Grows (s t : State ι) : Prop where
  serves : ∀ {j i}, Serves s j i → Serves t j i
  sent : ∀ i, (s.clients i).sent ⊆ (t.clients i).sent

theorem Known.mono {p : Packet ι} (h : Known s p) (hg : Grows s t) : Known t p := by
  cases h with
  | application i sent => exact .application i (hg.sent i sent)
  | message i j serves sent => exact .message i j (hg.serves serves) (hg.sent i sent)
  | echo i j data serves length_eq => exact .echo i j data (hg.serves serves) length_eq

theorem Child.Loyal.mono {c : Child ι} (h : c.Loyal s) (hg : Grows s t) : c.Loyal t := by
  obtain ⟨i, hc, hlast, hreceived⟩ := h
  exact ⟨i, hc, hlast, fun p hp => ⟨(hreceived p hp).1, hg.sent i (hreceived p hp).2⟩⟩

theorem Exchange.Faithful.mono {e : Exchange ι} (h : e.Faithful s i)
    (hserves : ∀ j, Serves s j i → Serves t j i) : e.Faithful t i := by
  obtain ⟨j, q, hj, hrest⟩ := h
  exact ⟨j, q, hserves j hj, hrest⟩

/-- What a client can receive came from a child that serves it. -/
theorem Known.of_dst_client {p : Packet ι} (h : Known s p) (hdst : p.dst = .client i) :
    ∃ j, Serves s j i ∧ p.src = .child j ∧ p.data.length = BUF_SIZE := by
  cases h with
  | application k sent => cases hdst
  | message k j serves sent => cases hdst
  | echo k j data serves length_eq =>
    cases hdst
    exact ⟨j, serves, rfl, length_eq⟩

variable [DecidableEq ι]

/-- A new state has its sessions when what is new in it is as the invariant wants it. -/
theorem Sessions.of_grows (hs : Sessions s) (hg : Grows s t)
    (hnet : ∀ p ∈ t.net, p ∈ s.net ∨ Known t p)
    (hparent : t.parent.forking = true →
      ∃ i, t.parent.client = .client i ∧ t.parent.last = some (applicationOf i))
    (hchildren : ∀ c ∈ t.children, c ∈ s.children ∨ c.Loyal t)
    (hsession : ∀ i, Session t i) : Sessions t where
  net p hp := by
    rcases hnet p hp with h | h
    · exact (hs.net p h).mono hg
    · exact h
  parent := hparent
  children c hc := by
    rcases hchildren c hc with h | h
    · exact (hs.children c h).mono hg
    · exact h
  session := hsession

/-- **Sessions a move is not about.**  The client is as before, it has no more children,
    applications and tokens than before, and whatever may reach it is still an echo. -/
theorem Session.keep (h : Session s i) (hc : t.clients i = s.clients i)
    (hserves : ∀ j, Serves s j i → Serves t j i)
    (hforked : t.apps i + t.kids i ≤ s.apps i + s.kids i) (hsingle : t.tokens i ≤ s.tokens i)
    (hhi : 0 < s.kids i → OnlyHi s i → OnlyHi t i) : Session t i where
  forked := Nat.le_trans hforked h.forked
  single := Nat.le_trans hsingle h.single
  exchanges e he := (h.exchanges e (hc ▸ he)).mono hserves
  atPc := by
    have hat := h.atPc
    rw [hc]
    cases hpc : (s.clients i).pc with
    | start =>
      rw [hpc] at hat
      obtain ⟨hnone, hidle⟩ := hat
      exact ⟨by omega, by omega⟩
    | handshake => trivial
    | send =>
      -- no token before, so none now
      rw [hpc] at hat
      obtain ⟨hidle, j, hj, hserver⟩ := hat
      exact ⟨by omega, j, hserves j hj, by rw [hc, hserver]⟩
    | reply =>
      -- the child that was asked is there, so no move forks another one
      rw [hpc] at hat
      obtain ⟨hi, j, hj, hlast⟩ := hat
      exact ⟨hhi hj.kids_pos hi, j, hserves j hj, by rw [hc, hlast]⟩

/-! ### A client moves -/

theorem clients_setClient_self (s : State ι) (i : ι) (c : Client ι) :
    (s.setClient i c).clients i = c := Function.update_self ..

theorem clients_setClient_of_ne (s : State ι) {i k : ι} (h : k ≠ i) (c : Client ι) :
    (s.setClient i c).clients k = s.clients k := Function.update_of_ne h ..

/-- A client that forgets nothing it has sent. -/
theorem Grows.setClient {c : Client ι} (h : (s.clients i).sent ⊆ c.sent) :
    Grows s (s.setClient i c) where
  serves hj := hj
  sent k := by
    by_cases hk : k = i
    · subst hk
      rw [clients_setClient_self]
      exact h
    · rw [clients_setClient_of_ne s hk]
      exact fun _ h => h

/-- A client sends a datagram of its own: only its own session is concerned. -/
theorem Sessions.sendFrom (hs : Sessions s) {c : Client ι} {q : Packet ι}
    (hsent : c.sent = (s.clients i).sent ++ [q]) (hsrc : q.src = .client i)
    (hdst : ∀ k, q.dst ≠ .client k) (hq : Known ((s.setClient i c).send q) q)
    (hi : Session ((s.setClient i c).send q) i) : Sessions ((s.setClient i c).send q) := by
  have hgrows : Grows s (s.setClient i c) :=
    .setClient (by rw [hsent]; exact List.subset_append_left ..)
  refine hs.of_grows ⟨hgrows.serves, hgrows.sent⟩ ?_ hs.parent (fun c hc => .inl hc) ?_
  · intro p hp
    rcases Multiset.mem_cons.mp hp with rfl | hp
    · exact .inr hq
    · exact .inl hp
  · intro k
    by_cases hk : k = i
    · subst hk; exact hi
    -- the datagram is neither from nor to another client
    have hcon : ¬ q.Concerns k := by
      rintro (h | h)
      · rw [hsrc] at h
        exact hk (Addr.client.inj h).symm
      · exact hdst k h
    have happ : q ≠ applicationOf k := fun h => hcon (.inl (by rw [h]; rfl))
    refine (hs.session k).keep (clients_setClient_of_ne s hk c) (fun j hj => hj) ?_ ?_ ?_
    · simp [State.apps_send, happ]
    · simp [State.tokens_send, hcon]
    · intro _ hhi
      refine ⟨fun p hp hpk => ?_, hhi.child⟩
      rcases Multiset.mem_cons.mp hp with rfl | hp
      · exact absurd hpk (hdst k)
      · exact hhi.net p hp hpk

/-- A client receives a datagram: only its own session is concerned. -/
theorem Sessions.recvBy (hs : Sessions s) {c : Client ι} {p : Packet ι}
    (hsent : c.sent = (s.clients i).sent) (hi : Session ((s.drop p).setClient i c) i) :
    Sessions ((s.drop p).setClient i c) := by
  have hgrows : Grows (s.drop p) ((s.drop p).setClient i c) :=
    .setClient (by rw [hsent]; exact fun _ h => h)
  refine hs.of_grows ⟨hgrows.serves, hgrows.sent⟩
    (fun q hq => .inl (Multiset.mem_of_mem_erase hq)) hs.parent (fun c hc => .inl hc) ?_
  · intro k
    by_cases hk : k = i
    · subst hk; exact hi
    refine (hs.session k).keep (clients_setClient_of_ne _ hk c) (fun j hj => hj) ?_ ?_ ?_
    · exact Nat.add_le_add_right (State.apps_drop_le p) _
    · exact State.tokens_drop_le p
    · exact fun _ hhi => ⟨fun q hq => hhi.net q (Multiset.mem_of_mem_erase hq), hhi.child⟩

/-- With the token in a datagram, the client has none without this datagram. -/
theorem Session.tokens_drop_eq_zero (h : Session s i) {p : Packet ι} (hp : p ∈ s.net)
    (hcon : p.Concerns i) : (s.drop p).tokens i = 0 := by
  have hdrop := State.tokens_drop (i := i) hp
  rw [if_pos hcon] at hdrop
  have := h.single
  omega

/-- A client without a token has only echoes on their way: none at all. -/
theorem onlyHi_of_tokens (h : s.tokens i = 0) : OnlyHi s i where
  net _ hp hdst := absurd (.inr hdst) (State.not_concerns_of_tokens h hp)
  child _ hc hi := absurd hi (State.not_answers_of_tokens h hc)

/-- The application. -/
theorem Sessions.apply (hs : Sessions s) (hpc : (s.clients i).pc = .start) :
    Sessions ((s.setClient i { s.clients i with
      pc := .handshake
      sent := (s.clients i).sent ++ [applicationOf i] }).send (applicationOf i)) := by
  have h := hs.session i
  have hat := h.atPc
  rw [hpc] at hat
  obtain ⟨hnone, hidle⟩ := hat
  refine hs.sendFrom rfl rfl (fun k hk => by cases hk) ?_ ?_
  · refine Known.application i ?_
    show applicationOf i ∈ ((s.setClient i _).clients i).sent
    rw [clients_setClient_self]
    exact List.mem_append_right _ (List.mem_singleton_self _)
  · constructor
    · -- the first application, as there was neither one nor a child
      simp [State.apps_send]
      omega
    · have hcon : (applicationOf i).Concerns i := .inl rfl
      simp [State.tokens_send, hcon, hidle]
    · show AtPc _ i ((s.setClient i _).clients i).pc
      rw [clients_setClient_self]
      trivial
    · intro e he
      have he : e ∈ ((s.setClient i _).clients i).exchanges := he
      rw [clients_setClient_self] at he
      exact (h.exchanges e he).mono fun j hj => hj

/-- A datagram from the child that serves the client: the client is the next to send. -/
theorem Sessions.recvFrom (hs : Sessions s) {c : Client ι} {p : Packet ι} {j : Nat}
    (hp : p ∈ s.net) (hdst : p.dst = .client i) (hj : Serves s j i) (hsrc : p.src = .child j)
    (hsent : c.sent = (s.clients i).sent) (hpc : c.pc = .send) (hserver : c.server = p.src)
    (hex : ∀ e ∈ c.exchanges, e.Faithful ((s.drop p).setClient i c) i) :
    Sessions ((s.drop p).setClient i c) := by
  have h := hs.session i
  -- the token was in the datagram received
  have hidle := h.tokens_drop_eq_zero hp (.inr hdst)
  refine hs.recvBy hsent ?_
  constructor
  · exact Nat.le_trans (Nat.add_le_add_right (State.apps_drop_le p) _) h.forked
  · simp [hidle]
  · rw [clients_setClient_self, hpc]
    refine ⟨hidle, j, hj, ?_⟩
    rw [clients_setClient_self, hserver]
    exact hsrc
  · rw [clients_setClient_self]
    exact hex

/-- The first datagram: the client learns the address of a child that serves it. -/
theorem Sessions.shake (hs : Sessions s) {p : Packet ι} (hp : p ∈ s.net)
    (hdst : p.dst = .client i) :
    Sessions ((s.drop p).setClient i { s.clients i with pc := .send, server := p.src }) := by
  have h := hs.session i
  obtain ⟨j, hj, hsrc, -⟩ := (hs.net p hp).of_dst_client hdst
  refine hs.recvFrom hp hdst hj hsrc rfl rfl rfl fun e he => ?_
  exact (h.exchanges e he).mono fun j hj => hj

/-- A message to the child. -/
theorem Sessions.ask (hs : Sessions s) (hpc : (s.clients i).pc = .send) :
    Sessions ((s.setClient i { s.clients i with
      pc := .reply
      sent := (s.clients i).sent ++ [messageOf i (s.clients i).server] }).send
        (messageOf i (s.clients i).server)) := by
  have h := hs.session i
  have hat := h.atPc
  rw [hpc] at hat
  obtain ⟨hidle, j, hj, hserver⟩ := hat
  rw [hserver]
  -- a message goes to a child, an application to the server
  have hne : messageOf i (.child j) ≠ applicationOf i := fun he => by cases congrArg Packet.dst he
  refine hs.sendFrom rfl rfl (fun k hk => by cases hk) ?_ ?_
  · refine Known.message i j hj ?_
    show messageOf i (.child j) ∈ ((s.setClient i _).clients i).sent
    rw [clients_setClient_self]
    exact List.mem_append_right _ (List.mem_singleton_self _)
  · constructor
    · simpa [State.apps_send, hne] using h.forked
    · have hcon : (messageOf i (.child j)).Concerns i := .inl rfl
      simp [State.tokens_send, hcon, hidle]
    · show AtPc _ i ((s.setClient i _).clients i).pc
      rw [clients_setClient_self]
      -- nothing else is on its way to the client, and the message is not addressed to it
      have hhi := onlyHi_of_tokens hidle
      refine ⟨⟨fun p hp hdst => ?_, hhi.child⟩, j, hj, ?_⟩
      · rcases Multiset.mem_cons.mp hp with rfl | hp
        · cases hdst
        · exact hhi.net p hp hdst
      · show ((s.setClient i _).clients i).sent.getLast? = _
        rw [clients_setClient_self]
        exact List.getLast?_concat
    · intro e he
      have he : e ∈ ((s.setClient i _).clients i).exchanges := he
      rw [clients_setClient_self] at he
      exact (h.exchanges e he).mono fun j hj => hj

/-- What a client sent last to the receiver of its last datagram is this datagram. -/
theorem Client.lastTo_of_getLast? {c : Client ι} {q : Packet ι} (h : c.sent.getLast? = some q) :
    c.lastTo q.dst = some q := by
  obtain ⟨l, hl⟩ := List.getLast?_eq_some_iff.mp h
  rw [Client.lastTo, hl, List.filter_append, List.filter_cons_of_pos (by simp)]
  exact List.getLast?_concat

/-- The echo is printed. -/
theorem Sessions.print (hs : Sessions s) {p : Packet ι} (hpc : (s.clients i).pc = .reply)
    (hp : p ∈ s.net) (hdst : p.dst = .client i) :
    Sessions ((s.drop p).setClient i { s.clients i with
      pc := .send
      server := p.src
      buf := (s.clients i).buf.recv p.data
      exchanges := (s.clients i).exchanges ++
        [⟨(s.clients i).lastTo p.src, p, text ((s.clients i).buf.recv p.data).bytes⟩] }) := by
  have h := hs.session i
  have hat := h.atPc
  rw [hpc] at hat
  obtain ⟨hhi, k, hk, hlast⟩ := hat
  obtain ⟨j, hj, hsrc, hlen⟩ := (hs.net p hp).of_dst_client hdst
  -- the child that answers is the child that was asked
  have hkids : s.kids i ≤ 1 := Nat.le_trans (Nat.le_add_left ..) h.forked
  have hjk : j = k := hj.unique hkids hk
  subst hjk
  refine hs.recvFrom hp hdst hj hsrc rfl rfl rfl fun e he => ?_
  rcases List.mem_append.mp he with he | he
  · exact (h.exchanges e he).mono fun j hj => hj
  · rw [List.mem_singleton.mp he]
    refine ⟨j, messageOf i (.child j), hj, hsrc, ?_, rfl, ?_⟩
    · show (s.clients i).lastTo p.src = _
      rw [hsrc]
      exact Client.lastTo_of_getLast? hlast
    · -- an echo fills the buffer, so nothing old is printed behind it
      show text ((s.clients i).buf.recv p.data).bytes = _
      rw [CharArray.bytes_recv_full _ hlen]
      exact hhi.net p hp hdst

end EltexHomeworks.MultiUserUdpEcho
