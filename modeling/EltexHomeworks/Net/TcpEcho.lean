import EltexHomeworks.Lib.Socket
import EltexHomeworks.Lib.Transition

namespace EltexHomeworks.TcpEcho

open EltexHomeworks.Lib

/-!
# TCP echo — client, server and the two byte streams between them

The client sends eight bytes and receives into `message_from`; the server receives into `message`,
appends a suffix to the string there and sends all of `message`.  `Session` is the pair of loops
with the bytes in flight in each direction and what was exchanged so far.  A `recv` takes any
number of the bytes in flight, up to the size of its buffer: that number is its label.

`Agrees` is what the two programs take for granted; `agrees_of_whole` is the theorem that it
holds when every `recv` happens to return one whole message.
-/

/-- The size of the buffers of client and server. -/
def BUF_SIZE : Nat := 500

/-- `message_to`, with its NUL: `sizeof` of the pointer is 8. -/
def messageTo : List UInt8 := [72, 105, 32, 73, 108, 121, 97, 0]

/-- `, server was here`. -/
def suffix : Str := [44, 32, 115, 101, 114, 118, 101, 114, 32, 119, 97, 115, 32, 104, 101, 114, 101]

/-! ### The server -/

/-- The server after a `recv` that stored `d`: the suffix is appended to the string in `message`;
    `none` when `strncat` leaves the buffer. -/
def receive (message : CharArray BUF_SIZE) (d : List UInt8) : Option (CharArray BUF_SIZE) :=
  (message.recv d).strncat suffix BUF_SIZE

theorem suffix_take : suffix.take BUF_SIZE = suffix := by decide

theorem nul_not_mem_suffix : 0 ∉ suffix := by decide

/-- A whole request is answered by its text and the suffix, whatever was in `message`. -/
theorem receive_messageTo (message : CharArray BUF_SIZE) :
    ∃ reply, receive message messageTo = some reply ∧
      text reply.bytes = text messageTo ++ suffix := by
  have hbytes : (message.recv messageTo).bytes = messageTo ++ message.bytes.drop 8 :=
    message.bytes_recv (by decide)
  have htext : text (message.recv messageTo).bytes = text messageTo := by
    rw [hbytes, text_append_of_mem (by decide)]
  have hsome : (receive message messageTo).isSome := by
    rw [receive, CharArray.isSome_strncat_iff, htext, suffix_take, hbytes, List.mem_append]
    exact ⟨Or.inl (by decide), by decide⟩
  obtain ⟨reply, hreply⟩ := Option.isSome_iff_exists.mp hsome
  refine ⟨reply, hreply, ?_⟩
  rw [CharArray.text_strncat nul_not_mem_suffix hreply, htext, suffix_take]

/-! ### The session -/

/-- Where one of the two loops is. -/
inductive Turn
  | send
  | recv
deriving DecidableEq, Repr

/-- Client, server and the bytes between them.  A connection keeps no boundaries between sends;
    the last four fields record what passed through it, and no step depends on them. -/
structure Session where
  client : Turn
  messageFrom : CharArray BUF_SIZE
  server : Turn
  message : CharArray BUF_SIZE
  /-- The bytes in flight. -/
  toServer : List UInt8
  toClient : List UInt8
  /-- What the client sent and what each of its `recv`s took, in order. -/
  sent : List (List UInt8)
  got : List (List UInt8)
  /-- What each `recv` of the server took, and the replies it sent. -/
  requests : List (List UInt8)
  replies : List (CharArray BUF_SIZE)

/-- A step of the session: one call of one side. -/
inductive Step
  | clientSend
  | clientRecv (n : Nat)
  | serverRecv (n : Nat)
  | serverSend
deriving DecidableEq, Repr

/-- `recv` returns a number of bytes between 1 and the size of the buffer, and only bytes that are
    there. -/
def CanTake (n : Nat) (stream : List UInt8) : Prop :=
  1 ≤ n ∧ n ≤ BUF_SIZE ∧ n ≤ stream.length

instance (n : Nat) (stream : List UInt8) : Decidable (CanTake n stream) :=
  inferInstanceAs (Decidable (_ ∧ _ ∧ _))

/-- A whole request can be taken. -/
theorem canTake_messageTo : CanTake messageTo.length messageTo := by decide

/-- The next state; `none` for a step that blocks, or whose `strncat` leaves the buffer.  A `recv`
    takes the first `n` bytes in flight, however they were sent, and a `send` sends all of its
    buffer. -/
def Session.next (s : Session) : Step → Option Session
  | .clientSend =>
    if s.client = .send then
      some { s with
        client := .recv
        toServer := s.toServer ++ messageTo
        sent := s.sent ++ [messageTo] }
    else none
  | .clientRecv n =>
    if s.client = .recv ∧ CanTake n s.toClient then
      some { s with
        client := .send
        messageFrom := s.messageFrom.recv (s.toClient.take n)
        toClient := s.toClient.drop n
        got := s.got ++ [s.toClient.take n] }
    else none
  | .serverRecv n =>
    if s.server = .recv ∧ CanTake n s.toServer then do
      let message ← receive s.message (s.toServer.take n)
      return { s with
        server := .send
        message := message
        toServer := s.toServer.drop n
        requests := s.requests ++ [s.toServer.take n] }
    else none
  | .serverSend =>
    if s.server = .send then
      some { s with
        server := .recv
        toClient := s.toClient ++ s.message.bytes
        replies := s.replies ++ [s.message] }
    else none

/-- A `recv` of the server whose `strncat` stays in the buffer. -/
theorem Session.next_serverRecv {s : Session} {n : Nat} {message : CharArray BUF_SIZE}
    (hs : s.server = .recv) (hn : CanTake n s.toServer)
    (h : receive s.message (s.toServer.take n) = some message) :
    s.next (.serverRecv n) = some { s with
      server := .send
      message := message
      toServer := s.toServer.drop n
      requests := s.requests ++ [s.toServer.take n] } := by
  rw [Session.next, if_pos ⟨hs, hn⟩, h]
  rfl

/-- A connection just made, with the buffers as they lie on the stacks. -/
def Session.start (messageFrom message : CharArray BUF_SIZE) : Session :=
  ⟨.send, messageFrom, .recv, message, [], [], [], [], [], []⟩

/-- The connection as a transition system. -/
def session (messageFrom message : CharArray BUF_SIZE) : TransitionSystem Session Step :=
  .ofStep (· = Session.start messageFrom message) Session.next

/-! ### Agreement -/

/-- The `k`-th buffer the client received is the server's complete `k`-th reply, and that reply
    answers the client's `k`-th message and nothing else. -/
def Agrees (s : Session) : Prop :=
  ∀ (k : Nat) (d : List UInt8), s.got[k]? = some d →
    ∃ (reply : CharArray BUF_SIZE) (request : List UInt8),
      s.replies[k]? = some reply ∧ d = reply.bytes ∧
      s.requests[k]? = some request ∧ s.sent[k]? = some request ∧
      text reply.bytes = text request ++ suffix

/-- The `recv` returns one whole message: the eight bytes of a request, or a full reply. -/
def Whole : Step → Prop
  | .clientSend => True
  | .clientRecv n => n = BUF_SIZE
  | .serverRecv n => n = messageTo.length
  | .serverSend => True

/-- The messages that were asked for `done`. -/
def asked (done : List (CharArray BUF_SIZE)) : List (List UInt8) :=
  List.replicate done.length messageTo

/-- A reply to a whole request. -/
def Answer (reply : CharArray BUF_SIZE) : Prop :=
  text reply.bytes = text messageTo ++ suffix

/-- The states of a session that exchanges whole messages: `done` are the replies that have been
    received in full, and one more exchange may be on its way. -/
inductive Lockstep (done : List (CharArray BUF_SIZE)) : Session → Prop
  | idle (messageFrom message : CharArray BUF_SIZE) :
      Lockstep done ⟨.send, messageFrom, .recv, message, [], [],
        asked done, done.map (·.bytes), asked done, done⟩
  | sent (messageFrom message : CharArray BUF_SIZE) :
      Lockstep done ⟨.recv, messageFrom, .recv, message, messageTo, [],
        asked done ++ [messageTo], done.map (·.bytes), asked done, done⟩
  | served (messageFrom message : CharArray BUF_SIZE) (answer : Answer message) :
      Lockstep done ⟨.recv, messageFrom, .send, message, [], [],
        asked done ++ [messageTo], done.map (·.bytes), asked done ++ [messageTo], done⟩
  | replied (messageFrom message : CharArray BUF_SIZE) (answer : Answer message) :
      Lockstep done ⟨.recv, messageFrom, .recv, message, [], message.bytes,
        asked done ++ [messageTo], done.map (·.bytes), asked done ++ [messageTo],
        done ++ [message]⟩

theorem asked_append_singleton (done : List (CharArray BUF_SIZE)) (reply : CharArray BUF_SIZE) :
    asked (done ++ [reply]) = asked done ++ [messageTo] := by
  rw [asked, List.length_append, List.length_singleton, List.replicate_succ', asked]

/-- Nothing can be taken from an empty stream. -/
theorem not_canTake_nil (n : Nat) : ¬ CanTake n [] := by
  rintro ⟨h₁, _, h₂⟩
  rw [List.length_nil] at h₂
  omega

/-- **One step of a session of whole messages** keeps it one. -/
theorem Lockstep.next {done : List (CharArray BUF_SIZE)} {s t : Session} {l : Step}
    (h : Lockstep done s) (hdone : ∀ reply ∈ done, Answer reply) (hl : Whole l)
    (hst : s.next l = some t) : ∃ done', Lockstep done' t ∧ ∀ reply ∈ done', Answer reply := by
  cases h with
  -- in each state only one of the four calls does not block
  | idle messageFrom message =>
    cases l with
    | clientSend =>
      cases hst
      exact ⟨done, .sent messageFrom message, hdone⟩
    | clientRecv n => cases hst
    | serverRecv n => simp [Session.next, not_canTake_nil] at hst
    | serverSend => cases hst
  | sent messageFrom message =>
    cases l with
    | clientSend => cases hst
    | clientRecv n => simp [Session.next, not_canTake_nil] at hst
    | serverRecv n =>
      -- a whole request leaves the stream empty
      obtain ⟨reply, hreply, htext⟩ := receive_messageTo message
      cases hl
      rw [Session.next_serverRecv rfl canTake_messageTo hreply] at hst
      cases hst
      exact ⟨done, .served messageFrom reply htext, hdone⟩
    | serverSend => cases hst
  | served messageFrom message answer =>
    cases l with
    | clientSend => cases hst
    | clientRecv n => simp [Session.next, not_canTake_nil] at hst
    | serverRecv n => cases hst
    | serverSend =>
      cases hst
      exact ⟨done, .replied messageFrom message answer, hdone⟩
  | replied messageFrom message answer =>
    cases l with
    | clientSend => cases hst
    | clientRecv n =>
      -- a full reply leaves the stream empty
      cases hl
      have hlen : BUF_SIZE ≤ message.bytes.length := Nat.le_of_eq message.length_eq.symm
      rw [Session.next, if_pos ⟨rfl, by decide, Nat.le_refl _, hlen⟩] at hst
      cases hst
      refine ⟨done ++ [message], ?_, ?_⟩
      · rw [← asked_append_singleton, List.take_of_length_le (Nat.le_of_eq message.length_eq),
          List.drop_of_length_le (Nat.le_of_eq message.length_eq)]
        have hidle : Lockstep (done ++ [message]) _ := .idle (messageFrom.recv message.bytes) message
        rw [List.map_append, List.map_singleton] at hidle
        exact hidle
      · rw [List.forall_mem_append, List.forall_mem_singleton]
        exact ⟨hdone, answer⟩
    | serverRecv n => simp [Session.next, not_canTake_nil] at hst
    | serverSend => cases hst

/-- A session of whole messages agrees. -/
theorem Lockstep.agrees {done : List (CharArray BUF_SIZE)} {s : Session} (h : Lockstep done s)
    (hdone : ∀ reply ∈ done, Answer reply) : Agrees s := by
  intro k d hd
  have hgot : s.got = done.map (·.bytes) := by cases h <;> rfl
  rw [hgot, List.getElem?_map, Option.map_eq_some_iff] at hd
  obtain ⟨reply, hreply, rfl⟩ := hd
  obtain ⟨hk, _⟩ := List.getElem?_eq_some_iff.mp hreply
  have hasked : (asked done)[k]? = some messageTo := List.getElem?_replicate_of_lt hk
  have happend : ∀ more, (asked done ++ more)[k]? = some messageTo := fun more => by
    rw [List.getElem?_append_left (by rw [asked, List.length_replicate]; exact hk), hasked]
  have hlog : s.replies[k]? = some reply ∧ s.requests[k]? = some messageTo ∧
      s.sent[k]? = some messageTo := by
    cases h with
    | idle => exact ⟨hreply, hasked, hasked⟩
    | sent => exact ⟨hreply, hasked, happend _⟩
    | served => exact ⟨hreply, happend _, happend _⟩
    | replied =>
      refine ⟨?_, happend _, happend _⟩
      rw [List.getElem?_append_left hk]
      exact hreply
  exact ⟨reply, messageTo, hlog.1, rfl, hlog.2.1, hlog.2.2,
    hdone reply (List.mem_of_getElem? hreply)⟩

/-- **Sessions of whole messages agree.**  In every run in which each `recv` of the server returns
    the eight bytes of a request and each `recv` of the client a full reply, the `k`-th buffer is
    the `k`-th reply and answers the `k`-th message. -/
theorem agrees_of_whole (messageFrom message : CharArray BUF_SIZE) {s : Session}
    (hs : ((session messageFrom message).restrict fun _ l => Whole l).Reachable s) :
    Agrees s := by
  have hinv : ((session messageFrom message).restrict fun _ l => Whole l).Invariant
      fun s => ∃ done, Lockstep done s ∧ ∀ reply ∈ done, Answer reply :=
    { base := by
        rintro s rfl
        exact ⟨[], .idle messageFrom message, by simp⟩
      keep := by
        rintro s l t ⟨done, h, hdone⟩ ⟨hl, hst⟩
        exact h.next hdone hl hst }
  obtain ⟨done, h, hdone⟩ := hinv.of_reachable hs
  exact h.agrees hdone

/-- A buffer of NULs. -/
def zeros : CharArray BUF_SIZE := ⟨List.replicate BUF_SIZE 0, List.length_replicate⟩

/-- A reply that is in flight behind its whole request. -/
theorem reachable_reply :
    ∃ reply, Answer reply ∧ ((session zeros zeros).restrict fun _ l => Whole l).Reachable
      ⟨.recv, zeros, .recv, reply, [], reply.bytes, [messageTo], [], [messageTo], [reply]⟩ := by
  obtain ⟨reply, hreply, htext⟩ := receive_messageTo zeros
  have h₁ : ((session zeros zeros).restrict fun _ l => Whole l).Reachable
      ⟨.recv, zeros, .recv, zeros, messageTo, [], [messageTo], [], [], []⟩ :=
    .step (l := .clientSend) (.init rfl) ⟨trivial, rfl⟩
  have h₂ : ((session zeros zeros).restrict fun _ l => Whole l).Reachable
      ⟨.recv, zeros, .send, reply, [], [], [messageTo], [], [messageTo], []⟩ :=
    .step (l := .serverRecv messageTo.length) h₁
      ⟨rfl, Session.next_serverRecv rfl canTake_messageTo hreply⟩
  exact ⟨reply, htext, .step (l := .serverSend) h₂ ⟨trivial, rfl⟩⟩

theorem agrees_after_one_exchange :
    ∃ s, s.got.length = 1 ∧ Agrees s := by
  obtain ⟨reply, _, hs⟩ := reachable_reply
  have hlen := reply.length_eq
  have hst := agrees_of_whole zeros zeros (.step (l := .clientRecv BUF_SIZE) hs
    ⟨rfl, if_pos ⟨rfl, by decide, Nat.le_refl _, Nat.le_of_eq hlen.symm⟩⟩)
  exact ⟨_, rfl, hst⟩

/-- When the first byte of a reply is received alone, the client takes it for a reply. -/
theorem not_agrees :
    ¬ ∀ (messageFrom message : CharArray BUF_SIZE) (s : Session),
      (session messageFrom message).Reachable s → Agrees s := by
  intro h
  obtain ⟨reply, _, hs⟩ := reachable_reply
  have hlen := reply.length_eq
  have hlen' : 1 ≤ reply.bytes.length := by rw [hlen]; decide
  have hrecv := h zeros zeros _ (.step (l := .clientRecv 1) hs.of_restrict
    (if_pos ⟨rfl, by decide, by decide, hlen'⟩))
  obtain ⟨reply', _, hreply, htake, _⟩ := hrecv 0 (reply.bytes.take 1) rfl
  cases hreply
  have := congrArg List.length htake
  rw [List.length_take_of_le hlen', hlen] at this
  exact absurd this (by decide)

end EltexHomeworks.TcpEcho
