import EltexHomeworks.Lib.Run
import EltexHomeworks.Net.MultiUserUdpEcho.Isolation

namespace EltexHomeworks.MultiUserUdpEcho

open EltexHomeworks.Lib

/-!
# Multi-user UDP echo — what a client needs to go on

Neither the client nor the server sends a datagram a second time.  So a client that waits goes on
only as long as its **token** exists, and it is taken from it by the loss of a datagram from or to
the client, or by a `fork` that fails for it, and by nothing else.

* `continues_iff` — from which states a client can exchange any number of messages;
* `continues_throughout_iff` — in which runs it can do so all the time.
-/

variable {ι : Type} {s t : State ι} {i : ι}

/-- The client is at a `recvfrom`. -/
def ClientPc.waits : ClientPc → Bool
  | .start => false
  | .handshake => true
  | .send => false
  | .reply => true

/-- How many messages are printed when the client receives the next datagram. -/
def ClientPc.owed (pc : ClientPc) : Nat := if pc = .reply then 1 else 0

variable [DecidableEq ι]

namespace State

/-- Client `i` waits, and nothing that could lead to an answer is left. -/
def Lost (s : State ι) (i : ι) : Prop := (s.clients i).pc.waits ∧ s.tokens i = 0

/-- A step that takes the token of client `i`. -/
def TakesToken (s : State ι) (i : ι) : Label ι → Prop
  | .lose p => p ∈ s.net ∧ p.Concerns i
  | .parent _ fork => fork = false ∧ s.parent.ForksFor i
  | .client _ _ => False
  | .child _ _ => False

/-- Client `i` can exchange any number of messages. -/
def Continues (s : State ι) (i : ι) : Prop :=
  ∀ n, ∃ t, Leads State.next s t ∧ n ≤ (t.clients i).exchanges.length

end State

theorem Sessions.next (hs : Sessions s) {l : Label ι} (h : s.next l = some t) : Sessions t :=
  hs.moves (next_cases h)

theorem Sessions.leads (hs : Sessions s) (h : Leads State.next s t) : Sessions t := by
  obtain ⟨ls, hrun⟩ := h
  exact run_keeps (fun _ _ _ hs hst => hs.next hst) hs hrun

/-! ### The token -/

/-- A client that does not wait has no token. -/
theorem Sessions.tokens_of_not_waits (hs : Sessions s) (h : (s.clients i).pc.waits = false) :
    s.tokens i = 0 := by
  have hat := (hs.session i).atPc
  cases hpc : (s.clients i).pc with
  | start => rw [hpc] at hat; exact hat.2
  | handshake => rw [hpc] at h; cases h
  | send => rw [hpc] at hat; exact hat.1
  | reply => rw [hpc] at h; cases h

/-- A datagram of client `i` in flight is its token. -/
theorem tokens_pos_of_mem {p : Packet ι} (hp : p ∈ s.net) (hcon : p.Concerns i) :
    0 < s.tokens i := by
  have hnet : 0 < s.net.countP (·.Concerns i) := Multiset.countP_pos.mpr ⟨p, hp, hcon⟩
  unfold State.tokens
  omega

/-- The parent that forks for client `i` has its token. -/
theorem tokens_pos_of_forksFor (h : s.parent.ForksFor i) : 0 < s.tokens i := by
  unfold State.tokens
  rw [if_pos h]
  omega

/-- The step of another client. -/
theorem tokens_clientStep {k : ι} {p : Packet ι} (hs : Sessions s) (hk : i ≠ k)
    (h : s.clientStep k p = some t) : t.clients i = s.clients i ∧ t.tokens i = s.tokens i := by
  -- what client `k` sends is its own, and so is what it receives
  have hsent : ∀ (c : Client ι) (q : Packet ι), q.src = .client k → q.dst ≠ .client i →
      ((s.setClient k c).send q).tokens i = s.tokens i := by
    intro c q hsrc hdst
    have hcon : ¬ q.Concerns i := by
      rintro (hi | hi)
      · exact hk (Addr.client.inj (hi.symm.trans hsrc))
      · exact hdst hi
    rw [State.tokens_send, if_neg hcon, State.tokens_setClient, Nat.add_zero]
  have hreceived : ∀ c : Client ι, p ∈ s.net → p.dst = .client k →
      ((s.drop p).setClient k c).tokens i = s.tokens i := by
    intro c hp hdst
    have hcon : ¬ p.Concerns i := by
      -- a datagram to client `k` came from the server, not from client `i`
      obtain ⟨j, -, hsrc, -⟩ := (hs.net p hp).of_dst_client hdst
      rintro (hi | hi)
      · cases hsrc.symm.trans hi
      · exact hk (Addr.client.inj (hi.symm.trans hdst))
    have hdrop := State.tokens_drop (i := i) hp
    rw [if_neg hcon] at hdrop
    exact hdrop
  -- a client answers the child it has heard of, never another client
  have hserver : (s.clients k).pc = .send → (s.clients k).server ≠ .client i := by
    intro hpc hi
    have hat := (hs.session k).atPc
    rw [hpc] at hat
    obtain ⟨-, j, -, hj⟩ := hat
    cases hj.symm.trans hi
  rw [State.clientStep] at h
  cases hpc : (s.clients k).pc with
  | start =>
    rw [hpc] at h
    cases h
    exact ⟨clients_setClient_of_ne s hk _, hsent _ _ rfl fun h => by cases h⟩
  | handshake =>
    rw [hpc] at h
    dsimp only at h
    split at h
    · rename_i hp
      cases h
      exact ⟨clients_setClient_of_ne _ hk _, hreceived _ hp.1 hp.2⟩
    · cases h
  | send =>
    rw [hpc] at h
    cases h
    exact ⟨clients_setClient_of_ne s hk _, hsent _ _ rfl (hserver hpc)⟩
  | reply =>
    rw [hpc] at h
    dsimp only at h
    split at h
    · rename_i hp
      cases h
      exact ⟨clients_setClient_of_ne _ hk _, hreceived _ hp.1 hp.2⟩
    · cases h

/-- The step of the parent: the token of the application becomes that of the fork, and then that of
    the child. -/
theorem tokens_parentStep {p : Packet ι} {fork : Bool} (hs : Sessions s)
    (h : s.parentStep p fork = some t) (hno : ¬ (fork = false ∧ s.parent.ForksFor i)) :
    t.clients i = s.clients i ∧ t.tokens i = s.tokens i := by
  rw [State.parentStep] at h
  by_cases hpc : s.parent.forking = true
  · rw [if_pos hpc] at h
    -- the parent forks: its token goes to the new child
    have hold : s.parent.ForksFor i ↔ s.parent.client = .client i := and_iff_right hpc
    have htokens := s.tokens_setParent i s.parent.forked
    rw [if_neg (s.parent.not_forksFor_forked i)] at htokens
    cases fork with
    | true =>
      cases h
      rw [if_congr hold rfl rfl] at htokens
      exact ⟨rfl, (State.tokens_addChild ..).trans htokens⟩
    | false =>
      cases h
      rw [if_neg fun hi => hno ⟨rfl, hi⟩] at htokens
      exact ⟨rfl, htokens⟩
  · rw [if_neg hpc] at h
    -- the parent accepts: the application is taken, and its token comes to the parent
    split at h
    · rename_i hp
      cases h
      obtain ⟨k, rfl⟩ := (hs.net p hp.1).of_dst_server hp.2
      have hcon : (applicationOf k).Concerns i ↔ (applicationOf k).src = .client i := by
        simp [applicationOf, Packet.Concerns]
      have hold : ¬ (s.drop (applicationOf k)).parent.ForksFor i := fun hi => hpc hi.1
      have hdrop := State.tokens_drop (i := i) hp.1
      have htokens :=
        (s.drop (applicationOf k)).tokens_setParent i (s.parent.accept (applicationOf k))
      rw [if_congr hcon rfl rfl] at hdrop
      rw [if_neg hold, if_congr (s.parent.forksFor_accept _ i) rfl rfl] at htokens
      exact ⟨rfl, htokens.trans hdrop⟩
    · cases h

/-- The step of a child: the token goes from the message to the child, and on to the echo. -/
theorem tokens_childStep {j : Nat} {p : Packet ι} (hs : Sessions s)
    (h : s.childStep j p = some t) : t.clients i = s.clients i ∧ t.tokens i = s.tokens i := by
  rw [State.childStep] at h
  obtain ⟨c, hc, h⟩ := Option.bind_eq_some_iff.mp h
  by_cases hpc : c.sending = true
  · -- the child sends: its token goes to the echo
    rw [if_pos hpc] at h
    cases h
    have htokens := State.tokens_setChild (i := i)
      (d := { c with sending := false, buf := c.buf.set 0 0 }) hc
    refine ⟨rfl, ?_⟩
    rw [State.tokens_send]
    simp [Child.Answers, Packet.Concerns, hpc] at htokens ⊢
    exact htokens
  · rw [if_neg hpc] at h
    split at h
    · rename_i hp
      -- the child receives: the token of the message comes to the child
      cases h
      obtain ⟨k, rfl, ⟨c', hc', hk⟩, -⟩ := (hs.net p hp.1).of_dst_child hp.2
      rw [Option.some.inj (hc'.symm.trans hc)] at hk
      have hcon : (messageOf k (.child j)).Concerns i ↔ c.client = .client i := by
        rw [hk]
        simp [messageOf, Packet.Concerns]
      have hdrop := State.tokens_drop (i := i) hp.1
      have htokens := State.tokens_setChild (s := s.drop (messageOf k (.child j))) (i := i)
        (d := { c with
          sending := true
          buf := c.buf.recv dataToSend
          received := c.received ++ [messageOf k (.child j)] }) hc
      rw [if_congr hcon rfl rfl] at hdrop
      rw [if_neg fun hi => hpc hi.2] at htokens
      simp only [Child.Answers, and_true] at htokens
      exact ⟨rfl, htokens.trans hdrop⟩
    · cases h

/-- **The token stays.**  Only the client itself and a step that takes its token do anything to
    it. -/
theorem tokens_next {l : Label ι} (hs : Sessions s) (h : s.next l = some t)
    (hmine : ∀ p, l ≠ .client i p) (hno : ¬ s.TakesToken i l) :
    t.clients i = s.clients i ∧ t.tokens i = s.tokens i := by
  cases l with
  | client k p =>
    have hk : i ≠ k := fun hk => hmine p (by rw [hk])
    exact tokens_clientStep hs hk h
  | parent p fork => exact tokens_parentStep hs h hno
  | child j p => exact tokens_childStep hs h
  | lose p =>
    cases h
    refine ⟨rfl, ?_⟩
    by_cases hp : p ∈ s.net
    · have hdrop := State.tokens_drop (i := i) hp
      rw [if_neg fun hcon => hno ⟨hp, hcon⟩] at hdrop
      exact hdrop
    · show ({ s with net := s.net.erase p } : State ι).tokens i = _
      rw [Multiset.erase_of_notMem hp]

/-- The token is taken. -/
theorem tokens_of_takes {l : Label ι} (hs : Sessions s) (htakes : s.TakesToken i l) :
    0 < s.tokens i ∧ ∃ t, s.next l = some t ∧ t.clients i = s.clients i ∧ t.tokens i = 0 := by
  have hsingle := (hs.session i).single
  cases l with
  | client k p => cases htakes
  | child j p => cases htakes
  | parent p fork =>
    obtain ⟨rfl, hforks⟩ := htakes
    refine ⟨tokens_pos_of_forksFor hforks, s.setParent s.parent.forked, ?_, rfl, ?_⟩
    · show s.parentStep p false = _
      rw [State.parentStep, if_pos hforks.1]
      rfl
    · have htokens := s.tokens_setParent i s.parent.forked
      rw [if_pos hforks, if_neg (s.parent.not_forksFor_forked i)] at htokens
      omega
  | lose p =>
    obtain ⟨hp, hcon⟩ := htakes
    exact ⟨tokens_pos_of_mem hp hcon, _, rfl, rfl, (hs.session i).tokens_drop_eq_zero hp hcon⟩

/-- A step of the client itself. -/
theorem waits_clientStep {p : Packet ι} (h : s.clientStep i p = some t) :
    ((s.clients i).pc.waits = true → 0 < s.tokens i ∧ (t.clients i).pc.waits = false) ∧
      ((s.clients i).pc.waits = false → 0 < t.tokens i) := by
  -- a datagram of its own is a token
  have hsent : ∀ (c : Client ι) (q : Packet ι), q.src = .client i →
      0 < ((s.setClient i c).send q).tokens i := by
    intro c q hsrc
    exact tokens_pos_of_mem (Multiset.mem_cons_self _ _) (.inl hsrc)
  rw [State.clientStep] at h
  cases hpc : (s.clients i).pc with
  | start =>
    rw [hpc] at h
    cases h
    exact ⟨fun h => (by cases h), fun _ => hsent _ _ rfl⟩
  | handshake =>
    rw [hpc] at h
    dsimp only at h
    split at h
    · -- the answer to the application was a token, and now none is owed
      rename_i hp
      cases h
      refine ⟨fun _ => ⟨tokens_pos_of_mem hp.1 (.inr hp.2), ?_⟩, fun h => by cases h⟩
      rw [clients_setClient_self]
      rfl
    · cases h
  | send =>
    rw [hpc] at h
    cases h
    exact ⟨fun h => (by cases h), fun _ => hsent _ _ rfl⟩
  | reply =>
    rw [hpc] at h
    dsimp only at h
    split at h
    · -- and so was the echo
      rename_i hp
      cases h
      refine ⟨fun _ => ⟨tokens_pos_of_mem hp.1 (.inr hp.2), ?_⟩, fun h => by cases h⟩
      rw [clients_setClient_self]
      rfl
    · cases h

/-! ### A client that is lost -/

/-- A lost client stays as it is. -/
theorem State.Lost.next (h : s.Lost i) (hs : Sessions s) {l : Label ι} (hst : s.next l = some t) :
    t.clients i = s.clients i ∧ t.Lost i := by
  obtain ⟨hwaits, hnone⟩ := h
  have hmine : ∀ p, l ≠ .client i p := by
    rintro p rfl
    have hpos := ((waits_clientStep hst).1 hwaits).1
    omega
  have hno : ¬ s.TakesToken i l := fun htakes => by
    have hpos := (tokens_of_takes hs htakes).1
    omega
  obtain ⟨hc, htokens⟩ := tokens_next hs hst hmine hno
  exact ⟨hc, by rw [hc]; exact hwaits, htokens.trans hnone⟩

/-- A lost client prints nothing more. -/
theorem State.Lost.leads (h : s.Lost i) (hs : Sessions s) (hlead : Leads State.next s t) :
    t.clients i = s.clients i := by
  obtain ⟨ls, hrun⟩ := hlead
  have hkept : (Sessions t ∧ t.Lost i) ∧ t.clients i = s.clients i := by
    refine run_keeps (I := fun u => (Sessions u ∧ u.Lost i) ∧ u.clients i = s.clients i)
      (fun u l v hu huv => ?_) ⟨⟨hs, h⟩, rfl⟩ hrun
    obtain ⟨⟨hsu, hlost⟩, hsame⟩ := hu
    obtain ⟨hc, hlost'⟩ := hlost.next hsu huv
    exact ⟨⟨hsu.next huv, hlost'⟩, hc.trans hsame⟩
  exact hkept.2

/-- A client that is not lost becomes so only when its token is taken. -/
theorem not_lost_next (hs : Sessions s) (h : ¬ s.Lost i) {l : Label ι} (hno : ¬ s.TakesToken i l)
    (hst : s.next l = some t) : ¬ t.Lost i := by
  rintro ⟨hwaits, hnone⟩
  by_cases hmine : ∃ p, l = .client i p
  · obtain ⟨p, rfl⟩ := hmine
    obtain ⟨hreceives, hsends⟩ := waits_clientStep hst
    cases hpc : (s.clients i).pc.waits with
    | true =>
      rw [(hreceives hpc).2] at hwaits
      cases hwaits
    | false =>
      have hpos := hsends hpc
      omega
  · obtain ⟨hc, htokens⟩ := tokens_next hs hst (fun p hl => hmine ⟨p, hl⟩) hno
    exact h ⟨by rw [← hc]; exact hwaits, htokens.symm.trans hnone⟩

/-! ### A client that is not lost -/

/-- Client `i` receives the next datagram. -/
def State.Answered (s : State ι) (i : ι) : Prop :=
  ∃ t, Leads State.next s t ∧ (t.clients i).pc = .send ∧
    (t.clients i).exchanges.length =
      (s.clients i).exchanges.length + (s.clients i).pc.owed

/-- One step of the others in front. -/
theorem State.Answered.cons {l : Label ι} (hst : s.next l = some t)
    (hc : t.clients i = s.clients i) (h : t.Answered i) : s.Answered i := by
  obtain ⟨u, hu, hpc, hlen⟩ := h
  rw [hc] at hlen
  exact ⟨u, (Leads.of_next hst).trans hu, hpc, hlen⟩

/-- The answer is in flight. -/
theorem answered_of_answer {p : Packet ι} (hwaits : (s.clients i).pc.waits) (hp : p ∈ s.net)
    (hdst : p.dst = .client i) : s.Answered i := by
  -- the datagram is what the client waits for, from whomever it is
  cases hpc : (s.clients i).pc with
  | start => rw [hpc] at hwaits; cases hwaits
  | send => rw [hpc] at hwaits; cases hwaits
  | handshake =>
    have hst : s.next (.client i p) = some ((s.drop p).setClient i
        { s.clients i with pc := .send, server := p.src }) := by
      show s.clientStep i p = _
      rw [State.clientStep, hpc]
      exact if_pos ⟨hp, hdst⟩
    refine ⟨_, .of_next hst, ?_, ?_⟩ <;> rw [clients_setClient_self]
    rw [hpc]
    rfl
  | reply =>
    have hst : s.next (.client i p) = some ((s.drop p).setClient i { s.clients i with
        pc := .send
        server := p.src
        buf := (s.clients i).buf.recv p.data
        exchanges := (s.clients i).exchanges ++
          [⟨(s.clients i).lastTo p.src, p, text ((s.clients i).buf.recv p.data).bytes⟩] }) := by
      show s.clientStep i p = _
      rw [State.clientStep, hpc]
      exact if_pos ⟨hp, hdst⟩
    refine ⟨_, .of_next hst, ?_, ?_⟩ <;> rw [clients_setClient_self]
    rw [hpc, List.length_append]
    rfl

/-- A child is about to answer. -/
theorem answered_of_answers {j : Nat} {c : Child ι} (hwaits : (s.clients i).pc.waits)
    (hc : s.children[j]? = some c) (hanswers : c.Answers i) : s.Answered i := by
  have hst : s.next (.child j (applicationOf i)) =
      some ((s.setChild j { c with sending := false, buf := c.buf.set 0 0 }).send
        ⟨.child j, c.client, c.buf.bytes⟩) := by
    show s.childStep j _ = _
    rw [State.childStep, hc]
    exact if_pos hanswers.2
  exact .cons hst rfl (answered_of_answer hwaits (Multiset.mem_cons_self _ _) hanswers.1)

/-- The message is on its way to a child, which waits for it. -/
theorem answered_of_message {j : Nat} (hs : Sessions s) (hwaits : (s.clients i).pc.waits)
    (hserves : Serves s j i) (hp : messageOf i (.child j) ∈ s.net) : s.Answered i := by
  obtain ⟨c, hc, hi⟩ := hserves
  -- with the token in the message, the child has none
  have hsending : c.sending ≠ true := by
    intro hsending
    have hnet : 0 < s.net.countP (·.Concerns i) :=
      Multiset.countP_pos.mpr ⟨_, hp, .inl rfl⟩
    have hchild : 0 < s.children.countP fun c => c.Answers i :=
      List.countP_pos_iff.mpr ⟨c, List.mem_of_getElem? hc, decide_eq_true ⟨hi, hsending⟩⟩
    have hsingle := (hs.session i).single
    unfold State.tokens at hsingle
    omega
  have hst : s.next (.child j (messageOf i (.child j))) =
      some ((s.drop (messageOf i (.child j))).setChild j { c with
        sending := true
        buf := c.buf.recv dataToSend
        received := c.received ++ [messageOf i (.child j)] }) := by
    show s.childStep j _ = _
    rw [State.childStep, hc]
    exact (if_neg hsending).trans (if_pos ⟨hp, rfl⟩)
  have hset : ((s.drop (messageOf i (.child j))).setChild j { c with
      sending := true
      buf := c.buf.recv dataToSend
      received := c.received ++ [messageOf i (.child j)] }).children[j]? = some { c with
        sending := true
        buf := c.buf.recv dataToSend
        received := c.received ++ [messageOf i (.child j)] } :=
    List.getElem?_set_self (List.getElem?_eq_some_iff.mp hc).1
  exact .cons hst rfl (answered_of_answers hwaits hset ⟨hi, rfl⟩)

/-- The parent is about to fork for the client. -/
theorem answered_of_forksFor (hwaits : (s.clients i).pc.waits) (hforks : s.parent.ForksFor i) :
    s.Answered i := by
  have hst : s.next (.parent (applicationOf i) true) =
      some ((s.setParent s.parent.forked).addChild s.parent) := by
    show s.parentStep _ true = _
    rw [State.parentStep, if_pos hforks.1]
    rfl
  have hnew : ((s.setParent s.parent.forked).addChild s.parent).children[s.children.length]? =
      some ⟨true, s.parent.client, s.parent.buf, s.parent.last, []⟩ :=
    List.getElem?_concat_length
  exact .cons hst rfl (answered_of_answers hwaits hnew ⟨hforks.2, rfl⟩)

/-- The application is in flight; the parent may have to fork for another client first. -/
theorem answered_of_application (hwaits : (s.clients i).pc.waits) (hp : applicationOf i ∈ s.net) :
    s.Answered i := by
  have haccepts : ∀ u : State ι, u.parent.forking = false → u.net = s.net →
      u.clients = s.clients → u.Answered i := by
    intro u hpc hnet hclients
    have hst : u.next (.parent (applicationOf i) true) =
        some ((u.drop (applicationOf i)).setParent (u.parent.accept (applicationOf i))) := by
      show u.parentStep _ true = _
      rw [State.parentStep, if_neg (by rw [hpc]; exact Bool.false_ne_true)]
      exact if_pos ⟨by rw [hnet]; exact hp, rfl⟩
    refine .cons hst rfl (answered_of_forksFor ?_ ⟨rfl, rfl⟩)
    show (u.clients i).pc.waits
    rw [hclients]
    exact hwaits
  cases hpc : s.parent.forking with
  | false => exact haccepts s hpc rfl rfl
  | true =>
    have hst : s.next (.parent (applicationOf i) true) =
        some ((s.setParent s.parent.forked).addChild s.parent) := by
      show s.parentStep _ true = _
      rw [State.parentStep, if_pos hpc]
      rfl
    exact .cons hst rfl (haccepts _ rfl rfl rfl)

/-- **A client that waits is answered**, wherever its token is: on the way to the server or to the
    child, with one of the two, or on its way back. -/
theorem answered_of_tokens (hs : Sessions s) (hwaits : (s.clients i).pc.waits)
    (htokens : 0 < s.tokens i) : s.Answered i := by
  by_cases hforks : s.parent.ForksFor i
  · exact answered_of_forksFor hwaits hforks
  by_cases hanswers : ∃ c ∈ s.children, c.Answers i
  · obtain ⟨c, hc, hanswers⟩ := hanswers
    obtain ⟨j, hj⟩ := List.mem_iff_getElem?.mp hc
    exact answered_of_answers hwaits hj hanswers
  · -- then it is in flight
    have hchild : s.children.countP (fun c => c.Answers i) = 0 :=
      List.countP_eq_zero.mpr fun c hc hi => hanswers ⟨c, hc, of_decide_eq_true hi⟩
    have hnet : 0 < s.net.countP (·.Concerns i) := by
      unfold State.tokens at htokens
      rw [if_neg hforks] at htokens
      omega
    obtain ⟨p, hp, hcon⟩ := Multiset.countP_pos.mp hnet
    cases hs.net p hp with
    | application k sent =>
      rcases hcon with hk | hk
      · cases hk
        exact answered_of_application hwaits hp
      · cases hk
    | message k j serves sent =>
      rcases hcon with hk | hk
      · cases hk
        exact answered_of_message hs hwaits serves hp
      · cases hk
    | echo k j data serves length_eq =>
      rcases hcon with hk | hk
      · cases hk
      · exact answered_of_answer hwaits hp hk

/-- The client sends a message and prints the answer. -/
theorem exchanges_succ (hs : Sessions s) (hpc : (s.clients i).pc = .send) :
    ∃ t, Leads State.next s t ∧ (t.clients i).pc = .send ∧
      (t.clients i).exchanges.length = (s.clients i).exchanges.length + 1 := by
  have hst : s.next (.client i (applicationOf i)) = some ((s.setClient i { s.clients i with
      pc := .reply
      sent := (s.clients i).sent ++ [messageOf i (s.clients i).server] }).send
        (messageOf i (s.clients i).server)) := by
    show s.clientStep i _ = _
    rw [State.clientStep, hpc]
    rfl
  have hclient := clients_setClient_self s i { s.clients i with
    pc := .reply
    sent := (s.clients i).sent ++ [messageOf i (s.clients i).server] }
  obtain ⟨u, hu, hsend, hlen⟩ := answered_of_tokens (hs.next hst) (i := i)
    (show ((s.setClient i _).clients i).pc.waits by rw [hclient]; rfl)
    (tokens_pos_of_mem (Multiset.mem_cons_self _ _) (.inl rfl))
  refine ⟨u, (Leads.of_next hst).trans hu, hsend, hlen.trans ?_⟩
  show ((s.setClient i _).clients i).exchanges.length + ((s.setClient i _).clients i).pc.owed = _
  rw [hclient]
  rfl

/-- A client that is not lost comes to its next message. -/
theorem leads_send (hs : Sessions s) (h : ¬ s.Lost i) :
    ∃ t, Leads State.next s t ∧ (t.clients i).pc = .send := by
  have hanswered : ∀ u : State ι, Sessions u → (u.clients i).pc.waits → 0 < u.tokens i →
      ∃ t, Leads State.next u t ∧ (t.clients i).pc = .send := by
    intro u hu hwaits htokens
    obtain ⟨t, ht, hpc, -⟩ := answered_of_tokens hu hwaits htokens
    exact ⟨t, ht, hpc⟩
  cases hpc : (s.clients i).pc with
  | start =>
    -- its application is a token, and with it the client comes to its first message
    have hst : s.next (.client i (applicationOf i)) = some ((s.setClient i { s.clients i with
        pc := .handshake
        sent := (s.clients i).sent ++ [applicationOf i] }).send (applicationOf i)) := by
      show s.clientStep i _ = _
      rw [State.clientStep, hpc]
      rfl
    obtain ⟨t, ht, hsend⟩ := hanswered _ (hs.next hst)
      (show ((s.setClient i _).clients i).pc.waits by rw [clients_setClient_self]; rfl)
      (tokens_pos_of_mem (Multiset.mem_cons_self _ _) (.inl rfl))
    exact ⟨t, (Leads.of_next hst).trans ht, hsend⟩
  | send => exact ⟨s, .refl s, hpc⟩
  | handshake =>
    have hwaits : (s.clients i).pc.waits = true := by rw [hpc]; rfl
    exact hanswered s hs hwaits (Nat.pos_of_ne_zero fun hnone => h ⟨hwaits, hnone⟩)
  | reply =>
    have hwaits : (s.clients i).pc.waits = true := by rw [hpc]; rfl
    exact hanswered s hs hwaits (Nat.pos_of_ne_zero fun hnone => h ⟨hwaits, hnone⟩)

theorem Sessions.continues_iff_not_lost (hs : Sessions s) : s.Continues i ↔ ¬ s.Lost i := by
  constructor
  · intro h hlost
    obtain ⟨t, ht, hlen⟩ := h ((s.clients i).exchanges.length + 1)
    rw [hlost.leads hs ht] at hlen
    omega
  · intro h n
    suffices hsends : ∃ t, Leads State.next s t ∧ (t.clients i).pc = .send ∧
        n ≤ (t.clients i).exchanges.length by
      obtain ⟨t, ht, -, hlen⟩ := hsends
      exact ⟨t, ht, hlen⟩
    induction n with
    | zero =>
      obtain ⟨t, ht, hpc⟩ := leads_send hs h
      exact ⟨t, ht, hpc, Nat.zero_le _⟩
    | succ n ih =>
      obtain ⟨t, ht, hpc, hlen⟩ := ih
      obtain ⟨u, hu, hpc', hlen'⟩ := exchanges_succ (hs.leads ht) hpc
      exact ⟨u, ht.trans hu, hpc', by omega⟩

variable {buf : CharArray BUF_SIZE} {bufs : ι → CharArray BUF_SIZE}

/-- **Going on.**  In every reachable state, a client can still exchange any number of messages,
    whatever has become of the others, if and only if it does not wait without a token; one whose
    token is gone waits for ever. -/
theorem continues_iff (h : (udpEcho buf bufs).Reachable s) (i : ι) :
    (s.Continues i ↔ ¬ s.Lost i) ∧
      (s.Lost i → ∀ t, Leads State.next s t → t.clients i = s.clients i) :=
  have hs := sessions_of_reachable h
  ⟨hs.continues_iff_not_lost, fun hlost _ hlead => hlost.leads hs hlead⟩

/-- The application is lost, and the client waits in its handshake for ever. -/
theorem continues_iff_lost :
    let buf : CharArray BUF_SIZE := ⟨List.replicate BUF_SIZE 0, List.length_replicate⟩
    ∃ s, Lib.run State.next (State.start buf fun _ => buf)
        [.client () (applicationOf ()), .lose (applicationOf ())] = some s ∧
      ¬ s.Continues () ∧ ∀ t, Leads State.next s t → (t.clients ()).pc.waits = true := by
  intro buf
  have hrun : (Lib.run State.next (State.start buf fun _ => buf)
      [.client () (applicationOf ()), .lose (applicationOf ())]).map
      (fun s => ((s.clients ()).pc.waits, s.tokens ())) = some (true, 0) := by decide
  obtain ⟨s, hs, hlost⟩ := Option.map_eq_some_iff.mp hrun
  obtain ⟨hwaits, htokens⟩ := Prod.mk.inj hlost
  have hreach : (udpEcho buf fun _ => buf).Reachable s :=
    TransitionSystem.Reachable.run (.init rfl) hs
  obtain ⟨hiff, hforever⟩ := continues_iff hreach ()
  refine ⟨s, hs, fun h => hiff.mp h ⟨hwaits, htokens⟩, fun t ht => ?_⟩
  rw [hforever ⟨hwaits, htokens⟩ t ht]
  exact hwaits

/-- **What ends a session.**  A client can go on in every state of a run if and only if no step of
    it loses a datagram from or to the client or is a `fork` that fails for it; what becomes of the
    other clients, and in which order anything happens, makes no difference. -/
theorem continues_throughout_iff (i : ι) (ls : List (Label ι)) :
    Throughout State.next (fun s => s.Continues i) (State.start buf bufs) ls ↔
      Along State.next (fun s l => ¬ s.TakesToken i l) (State.start buf bufs) ls := by
  have hstart : Sessions (State.start buf bufs) := sessions_start
  refine throughout_iff_never (I := Sessions) (fun _ _ _ hs _ hst => hs.next hst)
    (fun s l hs htakes => ?_) (fun s l t hs h hno hst => ?_) hstart ?_ ls
  · obtain ⟨hpos, t, hst, hc, hnone⟩ := tokens_of_takes hs htakes
    refine ⟨t, hst, fun h => (hs.next hst).continues_iff_not_lost.mp h ⟨?_, hnone⟩⟩
    -- a client that has a token waits
    cases hwaits : (s.clients i).pc.waits with
    | true => rw [hc]; exact hwaits
    | false =>
      have hzero := hs.tokens_of_not_waits hwaits
      omega
  · rw [(hs.next hst).continues_iff_not_lost]
    exact not_lost_next hs (hs.continues_iff_not_lost.mp h) hno hst
  · rw [hstart.continues_iff_not_lost]
    rintro ⟨hwaits, -⟩
    cases hwaits

end EltexHomeworks.MultiUserUdpEcho
