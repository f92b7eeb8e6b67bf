import EltexHomeworks.Lib.Tokens
import EltexHomeworks.Net.MultiUserUdpEcho.Steps

namespace EltexHomeworks.MultiUserUdpEcho

open EltexHomeworks.Lib

/-!
# Multi-user UDP echo — the session of a client

A client sends one datagram and waits for one, and a child does too, so each client has a single
**token**: it is a datagram in flight from or to the client, the application the parent is about to
fork for, or the message a child is about to send back.  The three counts below say where it can
be, and how the moves of the system change them:

* `apps s i` — the applications of client `i` that are not yet answered by a fork;
* `kids s i` — the children that serve client `i`;
* `tokens s i` — the tokens of client `i`.
-/

variable {ι : Type}

/-- Child `j` serves client `i`. -/
def Serves (s : State ι) (j : Nat) (i : ι) : Prop :=
  ∃ c, s.children[j]? = some c ∧ c.client = .client i

/-- The parent is about to fork a child for client `i`. -/
def Parent.ForksFor (q : Parent ι) (i : ι) : Prop := q.forking = true ∧ q.client = .client i

theorem Parent.forksFor_accept (q : Parent ι) (p : Packet ι) (i : ι) :
    (q.accept p).ForksFor i ↔ p.src = .client i := and_iff_right rfl

theorem Parent.not_forksFor_forked (q : Parent ι) (i : ι) : ¬ q.forked.ForksFor i :=
  fun h => by cases h.1

variable [DecidableEq ι]

instance (q : Parent ι) (i : ι) : Decidable (q.ForksFor i) :=
  inferInstanceAs (Decidable (_ ∧ _))

/-- A datagram is from or to client `i`. -/
def Packet.Concerns (p : Packet ι) (i : ι) : Prop := p.src = .client i ∨ p.dst = .client i

instance (p : Packet ι) (i : ι) : Decidable (p.Concerns i) :=
  inferInstanceAs (Decidable (_ ∨ _))

/-- A child is about to send to client `i`. -/
def Child.Answers (c : Child ι) (i : ι) : Prop := c.client = .client i ∧ c.sending = true

instance (c : Child ι) (i : ι) : Decidable (c.Answers i) :=
  inferInstanceAs (Decidable (_ ∧ _))

namespace State

variable (s : State ι) (i : ι)

/-- The applications of client `i` in flight or in the hands of the parent. -/
def apps : Nat := s.net.countP (· = applicationOf i) + if s.parent.ForksFor i then 1 else 0

/-- The children forked for client `i`. -/
def kids : Nat := s.children.countP fun c => c.client = .client i

/-- The tokens of client `i`, wherever they are. -/
def tokens : Nat :=
  s.net.countP (·.Concerns i) + (if s.parent.ForksFor i then 1 else 0) +
    s.children.countP fun c => c.Answers i

/-! ### How the counts change -/

@[simp] theorem apps_setClient (k : ι) (c : Client ι) : (s.setClient k c).apps i = s.apps i := rfl

@[simp] theorem kids_setClient (k : ι) (c : Client ι) : (s.setClient k c).kids i = s.kids i := rfl

@[simp] theorem tokens_setClient (k : ι) (c : Client ι) :
    (s.setClient k c).tokens i = s.tokens i := rfl

@[simp] theorem kids_send (p : Packet ι) : (s.send p).kids i = s.kids i := rfl

theorem apps_send (p : Packet ι) :
    (s.send p).apps i = s.apps i + if p = applicationOf i then 1 else 0 := by
  show (p ::ₘ s.net).countP _ + _ = _
  rw [Multiset.countP_cons, apps]
  exact Nat.add_right_comm ..

theorem tokens_send (p : Packet ι) :
    (s.send p).tokens i = s.tokens i + if p.Concerns i then 1 else 0 := by
  show (p ::ₘ s.net).countP _ + _ + _ = _
  rw [Multiset.countP_cons, tokens]
  show _ + (if s.parent.ForksFor i then 1 else 0) + s.children.countP _ = _
  omega

@[simp] theorem kids_setParent (q : Parent ι) : (s.setParent q).kids i = s.kids i := rfl

theorem apps_setParent (q : Parent ι) :
    (s.setParent q).apps i + (if s.parent.ForksFor i then 1 else 0) =
      s.apps i + if q.ForksFor i then 1 else 0 :=
  Nat.add_right_comm ..

theorem tokens_setParent (q : Parent ι) :
    (s.setParent q).tokens i + (if s.parent.ForksFor i then 1 else 0) =
      s.tokens i + if q.ForksFor i then 1 else 0 := by
  show s.net.countP _ + (if q.ForksFor i then 1 else 0) + s.children.countP _ + _ = _
  unfold tokens
  omega

@[simp] theorem apps_addChild (q : Parent ι) : (s.addChild q).apps i = s.apps i := rfl

theorem kids_addChild (q : Parent ι) :
    (s.addChild q).kids i = s.kids i + if q.client = .client i then 1 else 0 := by
  show (s.children ++ [_]).countP _ = _
  rw [List.countP_append, List.countP_singleton, kids]
  simp only [decide_eq_true_eq]

/-- A new child is about to send. -/
theorem tokens_addChild (q : Parent ι) :
    (s.addChild q).tokens i = s.tokens i + if q.client = .client i then 1 else 0 := by
  show s.net.countP _ + (if s.parent.ForksFor i then 1 else 0) + (s.children ++ [_]).countP _ = _
  rw [List.countP_append, List.countP_singleton, tokens]
  simp only [Child.Answers, and_true, decide_eq_true_eq]
  omega

variable {s} {i}

theorem apps_drop {p : Packet ι} (h : p ∈ s.net) :
    (s.drop p).apps i + (if p = applicationOf i then 1 else 0) = s.apps i := by
  have hnet := countP_erase_add (p := (· = applicationOf i)) h
  show (s.net.erase p).countP _ + (if s.parent.ForksFor i then 1 else 0) + _ = _
  unfold apps
  omega

theorem tokens_drop {p : Packet ι} (h : p ∈ s.net) :
    (s.drop p).tokens i + (if p.Concerns i then 1 else 0) = s.tokens i := by
  have hnet := countP_erase_add (p := (·.Concerns i)) h
  show (s.net.erase p).countP _ + (if s.parent.ForksFor i then 1 else 0) +
    s.children.countP _ + _ = _
  unfold tokens
  omega

/-- Without a datagram there are no more applications and tokens than with it. -/
theorem apps_drop_le (p : Packet ι) : (s.drop p).apps i ≤ s.apps i :=
  Nat.add_le_add_right (Multiset.countP_le_of_le _ (Multiset.erase_le ..)) _

theorem tokens_drop_le (p : Packet ι) : (s.drop p).tokens i ≤ s.tokens i :=
  Nat.add_le_add_right
    (Nat.add_le_add_right (Multiset.countP_le_of_le _ (Multiset.erase_le ..)) _) _

theorem kids_setChild {j : Nat} {c d : Child ι} (hc : s.children[j]? = some c)
    (h : d.client = c.client) : (s.setChild j d).kids i = s.kids i := by
  have hset := countP_set_add (p := fun c => decide (c.client = .client i)) (a := d) hc
  rw [h] at hset
  exact Nat.add_right_cancel hset

theorem tokens_setChild {j : Nat} {c d : Child ι} (hc : s.children[j]? = some c) :
    (s.setChild j d).tokens i + (if c.Answers i then 1 else 0) =
      s.tokens i + if d.Answers i then 1 else 0 := by
  have hset := countP_set_add (p := fun c => decide (c.Answers i)) (a := d) hc
  simp only [decide_eq_true_eq] at hset
  show s.net.countP _ + (if s.parent.ForksFor i then 1 else 0) +
    (s.children.set j d).countP _ + _ = _
  unfold tokens
  omega

/-- Without a token there is no datagram from or to the client. -/
theorem not_concerns_of_tokens (h : s.tokens i = 0) {p : Packet ι} (hp : p ∈ s.net) :
    ¬ p.Concerns i := by
  have hnet : s.net.countP (·.Concerns i) = 0 := by
    unfold tokens at h
    omega
  exact Multiset.countP_eq_zero.mp hnet p hp

/-- Without a token no child is about to send to the client. -/
theorem not_answers_of_tokens (h : s.tokens i = 0) {c : Child ι} (hc : c ∈ s.children) :
    ¬ c.Answers i := by
  have hkids : s.children.countP (fun c => c.Answers i) = 0 := by
    unfold tokens at h
    omega
  simpa using List.countP_eq_zero.mp hkids c hc

end State

/-- A child that serves a client is one of its children. -/
theorem Serves.kids_pos {s : State ι} {j : Nat} {i : ι} (h : Serves s j i) : 0 < s.kids i := by
  obtain ⟨c, hc, hi⟩ := h
  exact List.countP_pos_iff.mpr ⟨c, List.mem_of_getElem? hc, by simpa using hi⟩

/-- A client that has a single child has a single child. -/
theorem Serves.unique {s : State ι} {j k : Nat} {i : ι} (h : s.kids i ≤ 1) (hj : Serves s j i)
    (hk : Serves s k i) : j = k := by
  obtain ⟨c, hc, hci⟩ := hj
  obtain ⟨d, hd, hdi⟩ := hk
  exact eq_of_countP_le_one h hc hd (by simpa using hci) (by simpa using hdi)

/-! ### The invariant -/

/-- The datagrams there can be in flight. -/
inductive Known (s : State ι) : Packet ι → Prop
  | application (i : ι) (sent : applicationOf i ∈ (s.clients i).sent) : Known s (applicationOf i)
  | message (i : ι) (j : Nat) (serves : Serves s j i)
      (sent : messageOf i (.child j) ∈ (s.clients i).sent) : Known s (messageOf i (.child j))
  | echo (i : ι) (j : Nat) (data : List UInt8) (serves : Serves s j i)
      (length_eq : data.length = BUF_SIZE) : Known s ⟨.child j, .client i, data⟩

/-- A child serves the client whose application the parent had received last when it forked, and
    has received only what this client has sent. -/
def Child.Loyal (s : State ι) (c : Child ι) : Prop :=
  ∃ i, c.client = .client i ∧ c.last = some (applicationOf i) ∧
    ∀ p ∈ c.received, p.src = .client i ∧ p ∈ (s.clients i).sent

/-- A turn of the loop of client `i`: the answer came from a child that serves the client, and what
    was printed is the text last sent to this child. -/
def Exchange.Faithful (s : State ι) (i : ι) (e : Exchange ι) : Prop :=
  ∃ j q, Serves s j i ∧ e.answer.src = .child j ∧ e.asked = some q ∧ q.dst = .child j ∧
    e.printed = text q.data

/-- Whatever is on its way to client `i`, or about to be sent to it, is an echo of its message. -/
structure OnlyHi (s : State ι) (i : ι) : Prop where
  net : ∀ p ∈ s.net, p.dst = .client i → text p.data = text dataToSend
  child : ∀ c ∈ s.children, c.Answers i → text c.buf.bytes = text dataToSend

/-- What is known of client `i` at each point of its program. -/
def AtPc (s : State ι) (i : ι) : ClientPc → Prop
  | .start => s.apps i + s.kids i = 0 ∧ s.tokens i = 0
  | .handshake => True
  | .send => s.tokens i = 0 ∧ ∃ j, Serves s j i ∧ (s.clients i).server = .child j
  | .reply =>
    OnlyHi s i ∧ ∃ j, Serves s j i ∧ (s.clients i).sent.getLast? = some (messageOf i (.child j))

/-- The session of client `i`. -/
structure Session (s : State ι) (i : ι) : Prop where
  /-- At most one child is, or will be, forked for it. -/
  forked : s.apps i + s.kids i ≤ 1
  single : s.tokens i ≤ 1
  atPc : AtPc s i (s.clients i).pc
  exchanges : ∀ e ∈ (s.clients i).exchanges, e.Faithful s i

/-- **The invariant** over clients, parent, children and the datagrams in flight. -/
structure Sessions (s : State ι) : Prop where
  net : ∀ p ∈ s.net, Known s p
  parent : s.parent.forking = true →
    ∃ i, s.parent.client = .client i ∧ s.parent.last = some (applicationOf i)
  children : ∀ c ∈ s.children, c.Loyal s
  session : ∀ i, Session s i

end EltexHomeworks.MultiUserUdpEcho
