import EltexHomeworks.Net.MultiUserTcpSessions

namespace EltexHomeworks.MultiUserTcpEcho

open EltexHomeworks.Lib

/-!
# Multi-user TCP echo — what the clients print

As long as every `recv` on a connection takes all that is in flight there, client and child exchange
whole messages in turn, and the client prints the welcome and then its own message again and again:
`prints`.  How the streams of the others are split does not matter.
-/

/-- The first `n` texts a client is to print. -/
def expected : Nat → List Str
  | 0 => []
  | n + 1 => text sendFromServ :: List.replicate n (text messageTo)

theorem expected_succ {n : Nat} (h : n ≠ 0) :
    expected (n + 1) = expected n ++ [text messageTo] := by
  obtain ⟨m, rfl⟩ := Nat.exists_eq_succ_of_ne_zero h
  exact congrArg (text sendFromServ :: ·) List.replicate_succ'

/-- The texts printed so far are right. -/
def Right (printed : List (List UInt8)) : Prop :=
  printed.map text = expected printed.length

/-- The echo comes after the welcome. -/
theorem Right.append {printed : List (List UInt8)} (h : Right printed) (hne : printed ≠ [])
    {bytes : List UInt8} (htext : text bytes = text messageTo) : Right (printed ++ [bytes]) := by
  rw [Right, List.map_append, List.length_append, List.length_singleton,
    expected_succ (Nat.ne_of_gt (List.length_pos_of_ne_nil hne)), ← h, List.map_singleton, htext]

namespace Session

/-- The states of a session whose `recv`s take all that is in flight: the two parties alternate,
    and what is in flight is nothing, the welcome, one message or one reply. -/
inductive Lockstep : Session → Prop
  | waiting {messageFrom : CharArray BUF_SIZE} {sent got : List UInt8}
      {child : Option (ChildPc × Child)} (before : ∀ d, child ≠ some (.serve, d)) :
      Lockstep ⟨⟨.greeting, messageFrom, [], [], sent, got, []⟩, child⟩
  | welcomed {messageFrom : CharArray BUF_SIZE} {sent got : List UInt8} {d : Child} :
      Lockstep ⟨⟨.greeting, messageFrom, [], sendFromServ, sent, got, []⟩, some (.serve, d)⟩
  | idle {messageFrom : CharArray BUF_SIZE} {sent got : List UInt8}
      {printed : List (List UInt8)} {d : Child} (right : Right printed) (greeted : printed ≠ []) :
      Lockstep ⟨⟨.send, messageFrom, [], [], sent, got, printed⟩, some (.serve, d)⟩
  | asked {messageFrom : CharArray BUF_SIZE} {sent got : List UInt8}
      {printed : List (List UInt8)} {d : Child} (right : Right printed) (greeted : printed ≠ []) :
      Lockstep ⟨⟨.recv, messageFrom, messageTo, [], sent, got, printed⟩, some (.serve, d)⟩
  | replied {messageFrom reply : CharArray BUF_SIZE} {sent got : List UInt8}
      {printed : List (List UInt8)} {d : Child} (right : Right printed) (greeted : printed ≠ [])
      (echo : text reply.bytes = text messageTo) :
      Lockstep ⟨⟨.recv, messageFrom, [], reply.bytes, sent, got, printed⟩, some (.serve, d)⟩

/-- A `recv` takes all that is in flight. -/
def TakesAll (v : Session) : SessionLabel → Prop
  | .fork => True
  | .client r => v.client.pc ≠ .send → r.data = v.client.toClient.take BUF_SIZE
  | .child r => (∃ d, v.child = some (.serve, d)) → r.data = v.client.toServer.take BUF_SIZE

/-- The child is in its loop. -/
theorem serves_iff (v : Session) :
    v.child.map Prod.fst = some .serve ↔ ∃ d, v.child = some (.serve, d) := by
  rw [Option.map_eq_some_iff]
  constructor
  · rintro ⟨⟨pc, d⟩, hd, rfl⟩
    exact ⟨d, hd⟩
  · rintro ⟨d, hd⟩
    exact ⟨_, hd, rfl⟩

instance (v : Session) : DecidablePred v.TakesAll
  | .fork => isTrue trivial
  | .client r =>
    inferInstanceAs (Decidable (v.client.pc ≠ .send → r.data = v.client.toClient.take BUF_SIZE))
  | .child r =>
    have := decidable_of_iff _ v.serves_iff
    inferInstanceAs (Decidable (_ → r.data = v.client.toServer.take BUF_SIZE))

variable {buf : CharArray BUF_SIZE} {v w : Session}

/-- **The texts** printed in lockstep are right. -/
theorem Lockstep.right (h : v.Lockstep) : Right v.client.printed := by
  cases h with
  | waiting => rfl
  | welcomed => rfl
  | idle hright => exact hright
  | asked hright => exact hright
  | replied hright => exact hright

/-- A step of the client. -/
theorem Lockstep.client_step (h : v.Lockstep) {c : Client} {r : RecvResult BUF_SIZE}
    (hstep : v.client.step r = some c) (hall : v.TakesAll (.client r)) :
    ({ v with client := c } : Session).Lockstep := by
  cases h with
  | waiting =>
    -- no child has written yet, so that the `recv` cannot return
    obtain ⟨htakes, -⟩ := Option.ite_none_right_eq_some.mp hstep
    exact absurd htakes (Client.not_takes_nil r)
  | @welcomed messageFrom sent got d =>
    obtain ⟨-, hc⟩ := Option.ite_none_right_eq_some.mp hstep
    cases hc
    -- the welcome arrives at once, and what `buf` held behind it is not printed
    have hdata : r.data = sendFromServ := hall fun hpc => by cases hpc
    have htext : text (messageFrom.recv sendFromServ).bytes = text sendFromServ :=
      messageFrom.text_bytes_recv (by decide) (by decide)
    rw [Client.receive, hdata]
    exact .idle (congrArg (fun t => [t]) htext) (List.cons_ne_nil _ _)
  | idle hright hgreeted =>
    cases hstep
    exact .asked hright hgreeted
  | asked =>
    obtain ⟨htakes, -⟩ := Option.ite_none_right_eq_some.mp hstep
    exact absurd htakes (Client.not_takes_nil r)
  | @replied messageFrom reply sent got printed d hright hgreeted hecho =>
    obtain ⟨-, hc⟩ := Option.ite_none_right_eq_some.mp hstep
    cases hc
    -- the reply fills the whole of `messageFrom`
    have hdata : r.data = reply.bytes := by
      refine (hall fun hpc => by cases hpc).trans ?_
      exact List.take_of_length_le (Nat.le_of_eq reply.length_eq)
    have hbytes : (messageFrom.recv reply.bytes).bytes = reply.bytes :=
      messageFrom.bytes_recv_full reply.length_eq
    rw [Client.receive, hdata, hbytes]
    show Lockstep ⟨⟨.send, _, [], reply.bytes.drop reply.bytes.length, _, _, _⟩, _⟩
    rw [List.drop_length]
    exact .idle (hright.append hgreeted hecho) (List.append_ne_nil_of_left_ne_nil hgreeted _)

/-- A step of the child. -/
theorem Lockstep.child_step (h : v.Lockstep) {pc : ChildPc} {d : Child}
    (hchild : v.child = some (pc, d)) {r : RecvResult BUF_SIZE}
    (hstep : v.childStep r (pc, d) = some w) (hall : v.TakesAll (.child r)) : w.Lockstep := by
  cases h with
  | @waiting messageFrom sent got child hbefore =>
    -- before its loop the child closes and welcomes, and that is all it has sent
    cases pc with
    | close =>
      cases hstep
      exact .waiting fun d h => by cases h
    | welcome =>
      cases hstep
      exact .welcomed
    | serve => exact absurd hchild (hbefore d)
  | welcomed =>
    -- nothing is on the way to the child, so that its `recv` cannot return
    cases hchild
    obtain ⟨htakes, -⟩ := Option.ite_none_right_eq_some.mp hstep
    exact absurd htakes (Client.not_takes_nil r)
  | idle =>
    cases hchild
    obtain ⟨htakes, -⟩ := Option.ite_none_right_eq_some.mp hstep
    exact absurd htakes (Client.not_takes_nil r)
  | asked hright hgreeted =>
    cases hchild
    obtain ⟨-, hw⟩ := Option.ite_none_right_eq_some.mp hstep
    cases hw
    -- the whole message arrives at once, and has a NUL of its own
    have hdata : r.data = messageTo := hall ⟨d, rfl⟩
    have htext : text (d.buf.recv messageTo).bytes = text messageTo :=
      d.buf.text_bytes_recv (by decide) (by decide)
    rw [Client.exchange, hdata]
    exact .replied hright hgreeted htext
  | replied =>
    cases hchild
    obtain ⟨htakes, -⟩ := Option.ite_none_right_eq_some.mp hstep
    exact absurd htakes (Client.not_takes_nil r)

/-- **A step** that takes all that is in flight keeps client and child in lockstep. -/
theorem Lockstep.next (h : v.Lockstep) {l : SessionLabel} (hnext : v.next buf l = some w)
    (hall : v.TakesAll l) : w.Lockstep := by
  cases l with
  | fork =>
    have hchild := child_of_fork hnext
    cases h with
    | waiting =>
      obtain rfl := hchild
      cases hnext
      exact .waiting fun d h => by cases h
    | _ => cases hchild
  | client r =>
    obtain ⟨c, hstep, rfl⟩ := Option.map_eq_some_iff.mp hnext
    exact h.client_step hstep hall
  | child r =>
    obtain ⟨⟨pc, d⟩, hchild, hstep⟩ := Option.bind_eq_some_iff.mp hnext
    exact h.child_step hchild hstep hall

end Session

/-- The `recv` for session `k` in a step; any other step counts as a `fork`. -/
def SystemLabel.forSession (k : Nat) : SystemLabel → SessionLabel
  | .client i r => if i = k then .client r else .fork
  | .child i r => if i = k then .child r else .fork
  | _ => .fork

namespace System

variable {s t : System} {buf : CharArray BUF_SIZE}

/-- A `recv` on connection `k` takes all that is in flight there. -/
def TakesAll (k : Nat) (s : System) (l : SystemLabel) : Prop :=
  ∀ v, s.sessions[k]? = some v →
    (∀ r, l = .client k r → v.TakesAll (.client r)) ∧ ∀ r, l = .child k r → v.TakesAll (.child r)

theorem takesAll_iff {k : Nat} {l : SystemLabel} :
    TakesAll k s l ↔ ∀ v ∈ s.sessions[k]?, v.TakesAll (l.forSession k) := by
  refine forall_congr' fun v => forall_congr' fun _ => ?_
  -- only a step of client or child `k` reads in session `k`
  cases l with
  | client i r =>
    rw [SystemLabel.forSession]
    split
    · rename_i hik
      subst hik
      refine ⟨fun h => h.1 r rfl, fun h => ⟨fun r' hr => ?_, fun _ hr => by cases hr⟩⟩
      cases hr
      exact h
    · rename_i hik
      exact iff_of_true ⟨fun _ hr => absurd (SystemLabel.client.inj hr).1 hik,
        fun _ hr => by cases hr⟩ trivial
  | child i r =>
    rw [SystemLabel.forSession]
    split
    · rename_i hik
      subst hik
      refine ⟨fun h => h.2 r rfl, fun h => ⟨fun _ hr => (by cases hr), fun r' hr => ?_⟩⟩
      cases hr
      exact h
    · rename_i hik
      exact iff_of_true ⟨fun _ hr => (by cases hr),
        fun _ hr => absurd (SystemLabel.child.inj hr).1 hik⟩ trivial
  | _ => exact iff_of_true ⟨fun _ hr => (by cases hr), fun _ hr => by cases hr⟩ trivial

instance (k : Nat) (s : System) (l : SystemLabel) : Decidable (TakesAll k s l) :=
  decidable_of_iff' _ takesAll_iff

/-- Connection `k`, if there is one by now, is in lockstep. -/
def InLockstep (buf : CharArray BUF_SIZE) (k : Nat) (s : System) : Prop :=
  s.Linked buf ∧ ∀ v, s.sessions[k]? = some v → v.Lockstep

theorem InLockstep.next {k : Nat} (h : InLockstep buf k s) {l : SystemLabel}
    (hall : TakesAll k s l) (ht : s.next l = some t) : InLockstep buf k t := by
  obtain ⟨hlinked, hmoves⟩ := h.1.next ht
  refine ⟨hlinked, fun v hv => ?_⟩
  -- a move of session `i` decides on session `k` when the two are the same
  have hset : ∀ {i : Nat} {w : Session}, t.sessions = s.sessions.set i w →
      (i = k → w.Lockstep) → v.Lockstep := by
    intro i w hsessions hw
    rw [hsessions] at hv
    rcases Nat.decEq i k with hne | rfl
    · rw [List.getElem?_set_ne hne] at hv
      exact h.2 v hv
    · obtain ⟨hlen, -⟩ := List.getElem?_eq_some_iff.mp hv
      rw [List.length_set] at hlen
      rw [List.getElem?_set_self hlen] at hv
      cases hv
      exact hw rfl
  cases hmoves with
  | @connect messageFrom hsessions =>
    rw [hsessions] at hv
    rcases Nat.lt_or_ge k s.sessions.length with hk | hk
    · rw [List.getElem?_append_left hk] at hv
      exact h.2 v hv
    · rw [List.getElem?_append_right hk, List.getElem?_singleton] at hv
      -- the new session is `k` itself: nobody has read or sent anything yet
      obtain ⟨-, hv⟩ := Option.ite_none_right_eq_some.mp hv
      cases hv
      exact .waiting fun d h => by cases h
  | accept hsessions =>
    rw [hsessions] at hv
    exact h.2 v hv
  | fork hv' hnext hsessions =>
    exact hset hsessions fun hk => (h.2 _ (hk ▸ hv')).next hnext trivial
  | client hv' _ hnext hsessions =>
    -- only here the reads of the client of `k` matter
    refine hset hsessions ?_
    rintro rfl
    exact (h.2 _ hv').next hnext ((hall _ hv').1 _ rfl)
  | child hv' _ hnext hsessions =>
    refine hset hsessions ?_
    rintro rfl
    exact (h.2 _ hv').next hnext ((hall _ hv').2 _ rfl)

/-- **A client prints what it is to print**, the welcome and then its own message each time, in
    every run in which the `recv`s on its connection take all that is in flight there. -/
theorem prints (taken : List Bool) {ls : List SystemLabel}
    (hrun : Lib.run System.next (start taken buf) ls = some t) {k : Nat} {c : Client}
    (hall : Along System.next (TakesAll k) (start taken buf) ls) (hc : t.clients[k]? = some c) :
    c.printed.map text = expected c.printed.length := by
  have hstart : InLockstep buf k (start taken buf) :=
    ⟨linked_start taken buf, fun v hv => by cases hv⟩
  have hlockstep := run_keeps_along (fun _ _ _ h hall ht => h.next hall ht) hstart hall hrun
  exact (hlockstep.2 _ (t.sessions_at hc)).right

/-- The first client prints the welcome, and its own message when it has come back. -/
theorem prints_echoed :
    let got (d : List UInt8) (h : d ≠ [] ∧ d.length ≤ BUF_SIZE) : RecvResult BUF_SIZE :=
      .chunk d h.1 h.2
    let ls := welcoming ++ [.client 0 (got sendFromServ (by decide)), .client 0 .error,
      .child 0 (got messageTo (by decide)),
      .client 0 (got (messageTo ++ List.replicate 492 0) (by decide +kernel))]
    ∃ t c, Lib.run System.next (start [true, true, true] zeros) ls = some t ∧
      t.clients[0]? = some c ∧ c.printed.map text = [text sendFromServ, text messageTo] := by
  intro got ls
  have hrun : ((Lib.run System.next (start [true, true, true] zeros) ls).bind fun t =>
      t.clients[0]?.map fun c => c.printed.length) = some 2 := by decide +kernel
  obtain ⟨t, ht, hrun⟩ := Option.bind_eq_some_iff.mp hrun
  obtain ⟨c, hc, hlen⟩ := Option.map_eq_some_iff.mp hrun
  refine ⟨t, c, ht, hc, (prints [true, true, true] ht (k := 0) (by decide +kernel) hc).trans ?_⟩
  rw [hlen]
  rfl

end System

end EltexHomeworks.MultiUserTcpEcho
