import EltexHomeworks.Net.MultiUserUdpEcho.Process

namespace EltexHomeworks.MultiUserUdpEcho.Process

open EltexHomeworks.Lib

/-!
# Multi-user UDP echo — what a client learns of others

The parent receives the applications of all clients into one buffer, a child inherits the buffer,
and sends all of it whatever the length of what was received.  `sent` are the datagrams a process
sends over a history, and `Confidential` compares those to one client after different pasts.

* `Same.next` — what a process sends depends on its place, its client and its buffer alone;
* `exists_sent` — the first datagram of a child is the buffer it was forked with;
* `confidential_iff` — a client's datagrams are independent of what others have sent before exactly
  when its application filled the buffer, or it is sent nothing.
-/

/-- A datagram on its way: a whole buffer. -/
structure Sent where
  dst : Endpoint
  data : List UInt8
deriving DecidableEq

/-- What a step sends. -/
def output (p : Process) : Outcome → List Sent
  | .sendto true => if p.pc = .sendto then [⟨p.client, p.buf.bytes⟩] else []
  | _ => []

/-- What a process sends over a history. -/
def sent : Process → List Outcome → List Sent
  | _, [] => []
  | p, o :: os =>
    p.output o ++
      match p.next o with
      | none => []
      | some q => sent q os

/-- Of that, what it sends to `a`. -/
def sentTo (a : Endpoint) (p : Process) (os : List Outcome) : List Sent :=
  (p.sent os).filter (·.dst = a)

/-- The datagram of client `a` that a step receives. -/
def fromClient (a : Endpoint) : Outcome → Option (Datagram BUF_SIZE)
  | .recvfrom (some r) => if r.source = a then some r.data else none
  | _ => none

/-- The application `d` of client `a` is received, a child is forked for it, and its calls return
    `os`. -/
def serving (a : Endpoint) (d : Datagram BUF_SIZE) (os : List Outcome) : List Outcome :=
  .recvfrom (some ⟨d, a⟩) :: .fork .child :: os

/-- Two processes that have come through different pasts, with the same datagrams of client `a`,
    send `a` the same when they serve it. -/
def Confidential (fds : Descriptors Open) (cfd : Nat) (buf : CharArray BUF_SIZE) (a : Endpoint)
    (d : Datagram BUF_SIZE) (os : List Outcome) : Prop :=
  ∀ pre pre' p p', pre.filterMap (fromClient a) = pre'.filterMap (fromClient a) →
    run Process.next (start fds cfd buf) pre = some p →
    run Process.next (start fds cfd buf) pre' = some p' →
    (run Process.next p (serving a d os)).isSome → (run Process.next p' (serving a d os)).isSome →
    sentTo a p (serving a d os) = sentTo a p' (serving a d os)

variable {p q p' q' : Process} {o : Outcome} {os : List Outcome}

/-! ### What is sent depends on the buffer -/

/-- The same as far as sending goes. -/
structure Same (p q : Process) : Prop where
  pc : p.pc = q.pc
  client : p.client = q.client
  buf : p.buf = q.buf

theorem Same.output (h : Same p q) (o : Outcome) : p.output o = q.output o := by
  unfold Process.output
  rw [h.pc, h.client, h.buf]

/-- It stays the same over a step both can take. -/
theorem Same.next (h : Same p q) (hp : p.next o = some p') (hq : q.next o = some q') :
    Same p' q' := by
  -- both are at the same place, so that the same outcome leads both to the same branch
  have hpc := h.pc
  cases next_cases hp with
  | exit hp' =>
    cases next_cases hq with
    | exit hq' => exact ⟨rfl, h.client, h.buf⟩
    | leave hq' => rw [hp', hq'] at hpc; cases hpc
  | accept r hp' hsock =>
    cases next_cases hq with
    | accept r hq' hsock' => exact ⟨rfl, rfl, congrArg (CharArray.recv · r.data.val) h.buf⟩
    | receive r hq' hsock' => rw [hp', hq'] at hpc; cases hpc
  | fork r hp' =>
    cases next_cases hq with
    | fork r hq' => cases r <;> exact ⟨rfl, h.client, h.buf⟩
  | close hp' =>
    cases next_cases hq with
    | close hq' => exact ⟨rfl, h.client, h.buf⟩
  | socket ok hp' =>
    cases next_cases hq with
    | socket ok hq' => cases ok <;> exact ⟨rfl, h.client, h.buf⟩
  | again hp' =>
    cases next_cases hq with
    | again hq' => exact h
  | send hp' hsock =>
    cases next_cases hq with
    | send hq' hsock' => exact ⟨rfl, h.client, congrArg (CharArray.set · 0 0) h.buf⟩
  | receive r hp' hsock =>
    cases next_cases hq with
    | accept r hq' hsock' => rw [hp', hq'] at hpc; cases hpc
    | receive r hq' hsock' => exact ⟨rfl, h.client, congrArg (CharArray.recv · r.data.val) h.buf⟩
  | leave hp' =>
    cases next_cases hq with
    | exit hq' => rw [hp', hq'] at hpc; cases hpc
    | leave hq' => exact ⟨rfl, h.client, h.buf⟩

theorem sent_cons {o : Outcome} (h : p.next o = some q) (os : List Outcome) :
    p.sent (o :: os) = p.output o ++ q.sent os := by
  rw [sent, h]

theorem isSome_run_cons (h : (run Process.next p (o :: os)).isSome) :
    ∃ q, p.next o = some q ∧ (run Process.next q os).isSome := by
  obtain ⟨u, hu⟩ := Option.isSome_iff_exists.mp h
  obtain ⟨q, hq, hu⟩ := run_cons_eq_some.mp hu
  exact ⟨q, hq, by rw [hu]; rfl⟩

/-- Over a history both come through, they send the same. -/
theorem Same.sent (h : Same p q) (hp : (run Process.next p os).isSome)
    (hq : (run Process.next q os).isSome) : p.sent os = q.sent os := by
  induction os generalizing p q with
  | nil => rfl
  | cons o os ih =>
    obtain ⟨p', hp', hp⟩ := isSome_run_cons hp
    obtain ⟨q', hq', hq⟩ := isSome_run_cons hq
    rw [sent_cons hp', sent_cons hq', h.output o, ih (h.next hp' hq') hp hq]

/-- Nothing is sent but by `sendto`. -/
theorem sent_eq_nil (h : .sendto true ∉ os) : p.sent os = [] := by
  induction os generalizing p with
  | nil => rfl
  | cons o os ih =>
    rw [List.mem_cons, not_or] at h
    have hout : p.output o = [] := by
      unfold output
      split
      · exact absurd rfl h.1
      · rfl
    rw [sent, hout, List.nil_append]
    cases p.next o with
    | none => rfl
    | some q => exact ih h.2

/-! ### The first datagram of a child -/

/-- A child that has not sent anything yet: before its `sendto`, or past it without a socket. -/
def Waits (p : Process) : Prop :=
  p.pc = .close ∨ p.pc = .socket ∨ p.pc = .sendto ∨
    (p.pc = .recvfrom ∧ p.fds.get? p.sfd = none) ∨ p.pc = .exited

/-- Its first `sendto` sends what the child was forked with. -/
theorem exists_sent (hn : p.Numbered) (hw : p.Waits) (hrun : (run Process.next p os).isSome)
    (hsend : .sendto true ∈ os) : ∃ rest, p.sent os = ⟨p.client, p.buf.bytes⟩ :: rest := by
  induction os generalizing p with
  | nil => cases hsend
  | cons o os ih =>
    obtain ⟨q, hq, hrun⟩ := isSome_run_cons hrun
    have hn' := hn.next hq
    rw [sent_cons hq]
    rcases List.mem_cons.mp hsend with rfl | hmem
    · -- the first `sendto` that succeeds
      have hpc : p.pc = .sendto := by
        cases next_cases hq with
        | send hpc hsock => exact hpc
      exact ⟨_, by rw [output, if_pos hpc]; rfl⟩
    · cases next_cases hq with
      | exit hpc => exact ih hn' (.inr (.inr (.inr (.inr rfl)))) hrun hmem
      | accept r hpc hsock =>
        rcases hw with hw | hw | hw | ⟨-, hnone⟩ | hw
        · rw [hpc] at hw; cases hw
        · rw [hpc] at hw; cases hw
        · rw [hpc] at hw; cases hw
        · rw [HasSocket, hnone] at hsock; cases hsock
        · rw [hpc] at hw; cases hw
      | fork r hpc => simp [Waits, hpc] at hw
      | close hpc => exact ih hn' (.inr (.inl rfl)) hrun hmem
      | socket ok hpc =>
        cases ok with
        | true => exact ih hn' (.inr (.inr (.inl rfl))) hrun hmem
        | false =>
          -- without a socket the number that was closed stays free
          have hnone : p.fds.get? p.sfd = none := by
            rw [← show p.fds.lowestFree = p.sfd from (hn.at hpc).2, Descriptors.get?_lowestFree]
          exact ih hn' (.inr (.inr (.inr (.inl ⟨rfl, hnone⟩)))) hrun hmem
      | again hpc => exact ih hn' hw hrun hmem
      | send hpc hsock => exact ⟨_, by rw [output, if_pos hpc]; rfl⟩
      | receive r hpc hsock => simp [Waits, hpc] at hw
      | leave hpc => simp [Waits, hpc] at hw

/-! ### Histories that can be taken -/

/-- The same as far as the success of the calls goes. -/
structure Alike (p q : Process) : Prop where
  pc : p.pc = q.pc
  sfd : p.sfd = q.sfd
  cfd : p.cfd = q.cfd
  fds : p.fds = q.fds

/-- It stays the same, and the other process can take the step too. -/
theorem Alike.next (h : Alike p q) (hp : p.next o = some p') :
    ∃ q', q.next o = some q' ∧ Alike p' q' := by
  -- the same descriptors are sockets in both
  have hsfd : p.HasSocket p.sfd → q.HasSocket q.sfd := fun hs => by
    rw [HasSocket, ← h.fds, ← h.sfd]; exact hs
  have hcfd : p.HasSocket p.cfd → q.HasSocket q.cfd := fun hs => by
    rw [HasSocket, ← h.fds, ← h.cfd]; exact hs
  have hpc := h.pc
  cases next_cases hp with
  | exit hp' => exact ⟨_, (Moves.exit (hpc ▸ hp')).next, rfl, h.sfd, h.cfd, h.fds⟩
  | accept r hp' hs =>
    exact ⟨_, (Moves.accept r (hpc ▸ hp') (hsfd hs)).next, rfl, h.sfd, h.cfd, h.fds⟩
  | fork r hp' =>
    refine ⟨_, (Moves.fork r (hpc ▸ hp')).next, ?_⟩
    cases r <;> exact ⟨rfl, h.sfd, h.cfd, h.fds⟩
  | close hp' =>
    refine ⟨_, (Moves.close (hpc ▸ hp')).next, rfl, h.sfd, h.cfd, ?_⟩
    show p.fds.close p.sfd = q.fds.close q.sfd
    rw [h.fds, h.sfd]
  | socket ok hp' =>
    refine ⟨_, (Moves.socket ok (hpc ▸ hp')).next, ?_⟩
    -- both get the same lowest free number
    cases ok with
    | true =>
      exact ⟨rfl, h.sfd, congrArg Descriptors.lowestFree h.fds,
        congrArg (Descriptors.add · Open.socket) h.fds⟩
    | false => exact ⟨rfl, h.sfd, h.cfd, h.fds⟩
  | again hp' => exact ⟨_, (Moves.again (hpc ▸ hp')).next, h⟩
  | send hp' hs => exact ⟨_, (Moves.send (hpc ▸ hp') (hcfd hs)).next, rfl, h.sfd, h.cfd, h.fds⟩
  | receive r hp' hs =>
    exact ⟨_, (Moves.receive r (hpc ▸ hp') (hcfd hs)).next, rfl, h.sfd, h.cfd, h.fds⟩
  | leave hp' => exact ⟨_, (Moves.leave (hpc ▸ hp')).next, rfl, h.sfd, h.cfd, h.fds⟩

theorem Alike.isSome_run (h : Alike p q) (hp : (run Process.next p os).isSome) :
    (run Process.next q os).isSome := by
  induction os generalizing p q with
  | nil => rfl
  | cons o os ih =>
    obtain ⟨p', hp', hrun⟩ := isSome_run_cons hp
    obtain ⟨q', hq', h'⟩ := h.next hp'
    rw [run_cons, hq']
    exact ih h' hrun

/-! ### Two pasts -/

/-- The child forked for an application. -/
def child (p : Process) (a : Endpoint) (d : Datagram BUF_SIZE) : Process :=
  { p with pc := .close, client := a, buf := p.buf.recv d.val, forked := true }

variable {a : Endpoint} {d : Datagram BUF_SIZE}

/-- What the process sends that serves a client is sent by the child. -/
theorem serve (h : (run Process.next p (serving a d os)).isSome) :
    p.pc = .recvfrom ∧ p.HasSocket p.sfd ∧ (run Process.next (p.child a d) os).isSome ∧
      p.sent (serving a d os) = (p.child a d).sent os := by
  obtain ⟨q, hq, h⟩ := isSome_run_cons h
  obtain ⟨u, hu, h⟩ := isSome_run_cons h
  cases next_cases hq with
  | accept r hpc hsock =>
    cases next_cases hu with
    | fork r _ =>
      refine ⟨hpc, hsock, h, ?_⟩
      rw [serving, sent_cons hq, sent_cons hu]
      rfl
  | receive r hpc hsock =>
    cases next_cases hu with
    | fork r hfork => cases hfork

/-- Two children with an application that fills the buffer have the same buffer. -/
theorem same_child (p p' : Process) (a : Endpoint) (hfull : d.val.length = BUF_SIZE) :
    Same (p.child a d) (p'.child a d) := by
  refine ⟨rfl, rfl, CharArray.ext ?_⟩
  exact (p.buf.bytes_recv_full hfull).trans (p'.buf.bytes_recv_full hfull).symm

/-- The first datagram to the client is the buffer with the application in front. -/
theorem exists_sentTo (hlow : p.LowestSocket p.sfd)
    (hrun : (run Process.next p (serving a d os)).isSome) (hsend : .sendto true ∈ os) :
    ∃ rest, sentTo a p (serving a d os) = ⟨a, (p.buf.recv d.val).bytes⟩ :: rest := by
  obtain ⟨-, -, hchild, hsent⟩ := serve hrun
  have hnum : (p.child a d).Numbered := ⟨rfl, hlow⟩
  obtain ⟨rest, hrest⟩ := exists_sent hnum (.inl rfl) hchild hsend
  rw [sentTo, hsent, hrest, List.filter_cons_of_pos (by simp [child])]
  exact ⟨_, rfl⟩

/-- Another client fills the buffer, and behind a short application its bytes are sent. -/
theorem exists_leak {fds : Descriptors Open} {cfd : Nat} {buf : CharArray BUF_SIZE}
    (hrun : (run Process.next (start fds cfd buf) (serving a d os)).isSome)
    (hlt : d.val.length < BUF_SIZE) (hsend : .sendto true ∈ os) :
    ∃ pre p, pre.filterMap (fromClient a) = [] ∧
      run Process.next (start fds cfd buf) pre = some p ∧
      (run Process.next p (serving a d os)).isSome ∧
      sentTo a (start fds cfd buf) (serving a d os) ≠ sentTo a p (serving a d os) := by
  -- the other client sends a byte that is not the one behind the application
  obtain ⟨c, hc⟩ : ∃ c : UInt8, buf.bytes[d.val.length]? ≠ some c := by
    by_cases h0 : buf.bytes[d.val.length]? = some 0
    · exact ⟨1, by rw [h0]; decide⟩
    · exact ⟨0, h0⟩
  let full : Datagram BUF_SIZE :=
    ⟨List.replicate BUF_SIZE c, Nat.le_of_eq List.length_replicate⟩
  let other : Endpoint := ⟨a.ip, a.port + 1⟩
  have hother : other ≠ a := fun heq => by simpa [other] using congrArg Endpoint.port heq
  let p : Process := { start fds cfd buf with client := other, buf := buf.recv full.val }
  have hlow : (start fds cfd buf).LowestSocket (start fds cfd buf).sfd := ⟨fds, rfl, rfl⟩
  have hrun' : run Process.next (start fds cfd buf)
      [.recvfrom (some ⟨full, other⟩), .fork .parent] = some p := by
    rw [run_cons, (Moves.accept ⟨full, other⟩ rfl hlow.hasSocket).next]
    rfl
  have halike : Alike (start fds cfd buf) p := ⟨rfl, rfl, rfl, rfl⟩
  have hsome := halike.isSome_run hrun
  refine ⟨_, p, by simp [fromClient, hother], hrun', hsome, fun heq => ?_⟩
  obtain ⟨rest, hrest⟩ := exists_sentTo hlow hrun hsend
  obtain ⟨rest', hrest'⟩ := exists_sentTo (p := p) ⟨fds, rfl, rfl⟩ hsome hsend
  rw [hrest, hrest'] at heq
  have hbyte := congrArg (fun m : Sent => m.data[d.val.length]?) (List.cons.inj heq).1
  simp only [CharArray.getElem?_recv_length _ d.property] at hbyte
  have hfull : (buf.recv full.val).bytes[d.val.length]? = some c := by
    rw [CharArray.bytes_recv_full _ List.length_replicate, List.getElem?_replicate, if_pos hlt]
  exact hc (hbyte.trans hfull)

/-- **Confidentiality.**  What the child sends to a client is independent of the datagrams others
    have sent to the server before, exactly when the application of the client has filled the
    buffer, or the child sends nothing. -/
theorem confidential_iff {fds : Descriptors Open} {cfd : Nat} {buf : CharArray BUF_SIZE}
    {a : Endpoint} {d : Datagram BUF_SIZE} {os : List Outcome}
    (hrun : (run Process.next (start fds cfd buf) (serving a d os)).isSome) :
    Confidential fds cfd buf a d os ↔ d.val.length = BUF_SIZE ∨ .sendto true ∉ os := by
  constructor
  · intro h
    by_contra hnot
    obtain ⟨hshort, hsend⟩ := not_or.mp hnot
    have hlt : d.val.length < BUF_SIZE := Nat.lt_of_le_of_ne d.property hshort
    obtain ⟨pre, p, hpre, hp, hsome, hne⟩ := exists_leak hrun hlt (Classical.not_not.mp hsend)
    exact hne (h [] pre _ p hpre.symm rfl hp hrun hsome)
  · rintro (hfull | hnone) pre pre' p p' - - - hp hp'
    · obtain ⟨-, -, hchild, hsent⟩ := serve hp
      obtain ⟨-, -, hchild', hsent'⟩ := serve hp'
      rw [sentTo, sentTo, hsent, hsent', (same_child p p' a hfull).sent hchild hchild']
    · obtain ⟨-, -, -, hsent⟩ := serve hp
      obtain ⟨-, -, -, hsent'⟩ := serve hp'
      rw [sentTo, sentTo, hsent, hsent', sent_eq_nil hnone, sent_eq_nil hnone]

/-- An application that fills the buffer. -/
theorem confidential_of_full :
    Confidential ⟨List.replicate 3 (some .inherited)⟩ 0
      ⟨List.replicate BUF_SIZE 0, List.length_replicate⟩ ⟨2130706433, 4001⟩
      ⟨List.replicate BUF_SIZE 72, Nat.le_of_eq List.length_replicate⟩
      [.close, .socket true, .sendto true] :=
  (confidential_iff rfl).mpr (.inl List.length_replicate)

/-- Behind an application of 25 bytes the client is sent what another client has sent. -/
theorem not_confidential_of_short :
    ¬ Confidential ⟨List.replicate 3 (some .inherited)⟩ 0
      ⟨List.replicate BUF_SIZE 0, List.length_replicate⟩ ⟨2130706433, 4001⟩
      ⟨application, by decide⟩ [.close, .socket true, .sendto true] := by
  intro h
  have heq := h []
    [.recvfrom (some ⟨⟨List.replicate 40 120, by decide⟩, ⟨2130706433, 4000⟩⟩), .fork .parent]
    _ _ rfl rfl rfl rfl rfl
  exact absurd heq (by decide +kernel)

end EltexHomeworks.MultiUserUdpEcho.Process
