import EltexHomeworks.Net.RawSocket
import EltexHomeworks.Net.UdpEcho

namespace EltexHomeworks.RawSocket

open EltexHomeworks.Lib
open EltexHomeworks.UdpEcho (Server turn transform servStr turn_datagram_eq_some)

/-!
# Raw-socket clients and the UDP echo server

Both clients are tried out with the server of `UDP_ECHO` on port 1414.  A raw socket gets a copy of
every UDP packet of the loopback from its opening on, the client's own among them, and the clients
take the first one from port 1414 for their reply.  `Loopback` is the server with the datagrams that
wait for it, and the packets a client has got.

* `sends_packetSent` — the packet a client forms by hand is a well-formed one;
* `first_reply` — a client prints the reply to the datagram that waits first;
* `own_reply` — which is its own when none waits.
-/

/-- The port of the server. -/
def SERVER_PORT : BitVec 16 := 1414#16

/-- A packet as the server receives it: what does not fit in `buf` is lost. -/
def datagram (p : UdpPacket) : Datagram UdpEcho.BUF_SIZE :=
  ⟨p.payload.take UdpEcho.BUF_SIZE, List.length_take_le ..⟩

/-- The server, and a client that has opened its socket. -/
structure Loopback where
  server : Server Endpoint
  /-- The packets for the server, in its socket. -/
  waiting : List UdpPacket
  /-- The packets that the raw socket got. -/
  seen : List UdpPacket

/-- A step: some program sends a packet, or the server answers with the packet `r`. -/
inductive Event
  | send (p : UdpPacket)
  | serve (r : UdpPacket)

namespace Loopback

/-- The next state; port 1414 is taken by the server, and nobody sets IP options.  The server sends
    the whole of `buf` to the sender of the datagram. -/
def next (s : Loopback) : Event → Option Loopback
  | .send p =>
    if p.options = [] ∧ p.sport ≠ SERVER_PORT then
      some { s with
        waiting := if p.dport = SERVER_PORT then s.waiting ++ [p] else s.waiting
        seen := s.seen ++ [p] }
    else none
  | .serve r =>
    match s.waiting with
    | [] => none
    | p :: ps =>
      (turn s.server (.datagram (datagram p) ⟨p.saddr, p.sport⟩)).bind fun server =>
        if r.options = [] ∧ r.sport = SERVER_PORT ∧ r.daddr = p.saddr ∧ r.dport = p.sport ∧
            r.payload = server.buf.bytes then
          some { s with server := server, waiting := ps, seen := s.seen ++ [r] }
        else none

/-- A client opens its socket and sends the packet `own`, which it gets itself too. -/
def opened (s : Loopback) (own : UdpPacket) : Loopback :=
  { s with waiting := s.waiting ++ [own], seen := [own] }

end Loopback

/-! ### The packet a client sends -/

/-- What is behind the IP header in the packet of a client. -/
def Client.segment (c : Client) (stack : CharArray PACKET_SIZE) : List UInt8 :=
  match c with
  | udpClient => (udpClient.myPacket stack).bytes
  | l3 => (l3.myPacket stack).bytes.drop IP_HEADER_LEN

/-- The packet `p` carries what the client formed.  Of the IP header of `raw_socket_l3` the kernel
    sets the length, the number and the checksum itself. -/
def Client.Sends (c : Client) (stack : CharArray PACKET_SIZE) (p : UdpPacket) : Prop :=
  p.options = [] ∧ p.udpHeader ++ p.payload = c.segment stack

/-- The length that the client writes in its UDP header. -/
def Client.ulen : Client → BitVec 16
  | udpClient => 500
  | l3 => 480

/-- What a client forms: its UDP header, the text and what follows it in `packet`. -/
theorem segment_eq (c : Client) (stack : CharArray PACKET_SIZE) :
    ∃ rest, c.segment stack = Client.myUdpHeader c.ulen ++ (hiServer ++ rest) ∧
      8 + (hiServer ++ rest).length = c.ulen.toNat := by
  cases c with
  | udpClient =>
    refine ⟨stack.bytes.drop 19, ?_, ?_⟩
    · rw [Client.segment, Client.myPacket, stack.bytes_recv (by decide), List.append_assoc]
      rfl
    · rw [List.length_append, List.length_drop, stack.length_eq]
      rfl
  | l3 =>
    refine ⟨(List.replicate PACKET_SIZE 0).drop 39, ?_, ?_⟩
    · rw [Client.segment, Client.myPacket, CharArray.bytes_recv _ (by decide), List.append_assoc,
        List.append_assoc]
      rfl
    · rw [List.length_append, List.length_drop, List.length_replicate]
      rfl

theorem length_segment (c : Client) (stack : CharArray PACKET_SIZE) :
    (c.segment stack).length = c.ulen.toNat := by
  obtain ⟨rest, hseg, hlen⟩ := segment_eq c stack
  rw [hseg, List.length_append, ← hlen]
  rfl

/-- A header without options is one of whole words. -/
theorem aligned_nil : ([] : List UInt8).length % 4 = 0 :=
  rfl

theorem length_nil_le : ([] : List UInt8).length ≤ 40 :=
  Nat.zero_le 40

/-- The packet of a client is not too long for IPv4. -/
theorem length_packetSent_le (c : Client) (stack : CharArray PACKET_SIZE) :
    28 + ([] : List UInt8).length + ((c.segment stack).drop 8).length ≤ 65535 := by
  rw [List.length_drop, length_segment]
  cases c <;> decide

/-- The packet of a client, from the loopback address to itself. -/
def Client.packetSent (c : Client) (stack : CharArray PACKET_SIZE) : UdpPacket where
  tos := 0
  id := 0#16
  df := false
  ttl := 128
  check := 0#16
  saddr := 2130706433#32
  daddr := 2130706433#32
  options := []
  sport := 2395#16
  dport := SERVER_PORT
  sum := 0#16
  payload := (c.segment stack).drop 8
  aligned := aligned_nil
  options_le := length_nil_le
  length_le := length_packetSent_le c stack

/-- **The packet is well formed**: the length a client writes in its UDP header is the one of what
    it sends. -/
theorem sends_packetSent (c : Client) (stack : CharArray PACKET_SIZE) :
    c.Sends stack (c.packetSent stack) := by
  obtain ⟨rest, hseg, hlen⟩ := segment_eq c stack
  refine ⟨rfl, ?_⟩
  have hpayload : (c.packetSent stack).payload = hiServer ++ rest := by
    show (c.segment stack).drop 8 = _
    rw [hseg]
    exact List.drop_left' rfl
  rw [UdpPacket.udpHeader, hpayload, hlen, BitVec.ofNat_toNat, BitVec.setWidth_eq, hseg]
  rfl

/-- What the packet of a client is to the server. -/
theorem Client.Sends.eq {c : Client} {stack : CharArray PACKET_SIZE} {p : UdpPacket}
    (h : c.Sends stack p) : p.options = [] ∧ p.sport = 2395#16 ∧ p.dport = SERVER_PORT ∧
      ∃ rest, p.payload = hiServer ++ rest ∧ p.payload.length ≤ 492 := by
  obtain ⟨rest, hseg, hlen⟩ := segment_eq c stack
  obtain ⟨hopt, hp⟩ := h
  rw [hseg] at hp
  obtain ⟨hheader, hpayload⟩ := List.append_inj hp rfl
  have hsport : be16 p.sport = be16 2395#16 := congrArg (List.take 2) hheader
  have hdport : be16 p.dport = be16 1414#16 :=
    congrArg (fun l => (List.drop 2 l).take 2) hheader
  refine ⟨hopt, be16_inj.mp hsport, be16_inj.mp hdport, rest, hpayload, ?_⟩
  have hulen : c.ulen.toNat ≤ 500 := by cases c <;> decide
  rw [hpayload]
  omega

/-! ### What a client makes of the packets -/

/-- A packet that is not from the server. -/
def Foreign (p : UdpPacket) : Prop := p.options = [] ∧ p.sport ≠ SERVER_PORT

/-- The loop takes such packets, into the same buffer. -/
theorem receive_foreign {ps : List UdpPacket} (h : ∀ p ∈ ps, Foreign p)
    (buf : CharArray PACKET_SIZE) :
    ∃ buf', ∀ qs, receive buf (ps ++ qs) = receive buf' qs := by
  induction ps generalizing buf with
  | nil => exact ⟨buf, fun _ => rfl⟩
  | cons p ps ih =>
    rw [List.forall_mem_cons] at h
    obtain ⟨⟨hopt, hport⟩, hps⟩ := h
    obtain ⟨buf', hbuf'⟩ := ih hps (recvfrom buf p)
    refine ⟨buf', fun qs => ?_⟩
    rw [List.cons_append, receive, if_neg, hbuf']
    exact fun hseen => hport (((fromServer_iff buf p).mpr (.inl hopt)).mp hseen)

theorem output_foreign (c : Client) (stack : CharArray PACKET_SIZE) {ps : List UdpPacket}
    (h : ∀ p ∈ ps, Foreign p) : c.output stack ps = none := by
  obtain ⟨buf, hbuf⟩ := receive_foreign h (c.myPacket stack)
  have hnil := hbuf []
  rw [List.append_nil] at hnil
  rw [Client.output, hnil]
  rfl

/-- **The first packet from the server** is the one whose text is printed. -/
theorem output_reply (c : Client) (stack : CharArray PACKET_SIZE) {ps : List UdpPacket}
    (h : ∀ p ∈ ps, Foreign p) {r : UdpPacket} (hopt : r.options = [])
    (hport : r.sport = SERVER_PORT) (hnul : 0 ∈ r.payload.take 472) (rest : List UdpPacket) :
    c.output stack (ps ++ r :: rest) = some (rest, some (text r.payload)) := by
  obtain ⟨buf, hbuf⟩ := receive_foreign h (c.myPacket stack)
  have hseen := ((fromServer_iff buf r).mpr (.inl hopt)).mpr hport
  have hprinted := (printed_iff buf r).mpr (.inl ⟨hopt, .inl hnul⟩)
  rw [Client.output, hbuf, receive, if_pos hseen, Option.map_some, c.textAt_eq, hprinted]

/-! ### Runs of the loopback -/

namespace Loopback

variable {s t : Loopback} {server : Server Endpoint} {head own : UdpPacket}

/-- The server has not answered since the client opened its socket, and `head` waits first. -/
structure Waits (server : Server Endpoint) (head : UdpPacket) (s : Loopback) : Prop where
  foreign : ∀ p ∈ s.seen, Foreign p
  server : s.server = server
  waiting : s.waiting.head? = some head

/-- The first packet from the server that the client got is the answer to `head`. -/
def Answered (server : Server Endpoint) (head : UdpPacket) (s : Loopback) : Prop :=
  ∃ ps r rest server', s.seen = ps ++ r :: rest ∧ (∀ p ∈ ps, Foreign p) ∧ r.options = [] ∧
    r.sport = SERVER_PORT ∧ r.payload = server'.buf.bytes ∧
    turn server (.datagram (datagram head) ⟨head.saddr, head.sport⟩) = some server'

theorem next_send {p : UdpPacket} (h : s.next (.send p) = some t) :
    Foreign p ∧ t.server = s.server ∧ t.seen = s.seen ++ [p] ∧
      (t.waiting = s.waiting ∨ t.waiting = s.waiting ++ [p]) := by
  obtain ⟨hp, h⟩ := Option.ite_none_right_eq_some.mp h
  cases h
  refine ⟨hp, rfl, rfl, ?_⟩
  show (if p.dport = SERVER_PORT then _ else _) = _ ∨ (if p.dport = SERVER_PORT then _ else _) = _
  by_cases hport : p.dport = SERVER_PORT
  · exact .inr (if_pos hport)
  · exact .inl (if_neg hport)

theorem next_serve {r : UdpPacket} (h : s.next (.serve r) = some t) :
    ∃ p, s.waiting.head? = some p ∧
      turn s.server (.datagram (datagram p) ⟨p.saddr, p.sport⟩) = some t.server ∧
      t.seen = s.seen ++ [r] ∧ r.options = [] ∧ r.sport = SERVER_PORT ∧
      r.payload = t.server.buf.bytes := by
  unfold next at h
  cases hw : s.waiting with
  | nil => rw [hw] at h; cases h
  | cons p ps =>
    rw [hw] at h
    obtain ⟨server, hserver, h⟩ := Option.bind_eq_some_iff.mp h
    obtain ⟨⟨hopt, hport, -, -, hpayload⟩, h⟩ := Option.ite_none_right_eq_some.mp h
    cases h
    exact ⟨p, rfl, hserver, rfl, hopt, hport, hpayload⟩

/-- A step adds to what the client got. -/
theorem seen_next {e : Event} (h : s.next e = some t) : ∃ p, t.seen = s.seen ++ [p] := by
  cases e with
  | send p => exact ⟨p, (next_send h).2.2.1⟩
  | serve r =>
    obtain ⟨-, -, -, hseen, -⟩ := next_serve h
    exact ⟨r, hseen⟩

theorem Answered.next {e : Event} (h : Answered server head s) (hst : s.next e = some t) :
    Answered server head t := by
  obtain ⟨ps, r, rest, server', hseen, hreply⟩ := h
  obtain ⟨p, hp⟩ := seen_next hst
  exact ⟨ps, r, rest ++ [p], server', by rw [hp, hseen, List.append_assoc, List.cons_append],
    hreply⟩

theorem Waits.send {p : UdpPacket} (h : Waits server head s) (hst : s.next (.send p) = some t) :
    Waits server head t := by
  obtain ⟨hforeign, hserver, hseen, hwaiting⟩ := next_send hst
  refine ⟨fun q hq => ?_, hserver.trans h.server, ?_⟩
  · rw [hseen] at hq
    rcases List.mem_append.mp hq with hq | hq
    · exact h.foreign q hq
    · rw [List.mem_singleton.mp hq]
      exact hforeign
  · rcases hwaiting with hwaiting | hwaiting
    · rw [hwaiting, h.waiting]
    · rw [hwaiting, List.head?_append, h.waiting]
      rfl

theorem Waits.serve {r : UdpPacket} (h : Waits server head s) (hst : s.next (.serve r) = some t) :
    Answered server head t := by
  obtain ⟨p, hp, hturn, hseen, hopt, hport, hpayload⟩ := next_serve hst
  rw [h.waiting] at hp
  cases hp
  rw [h.server] at hturn
  exact ⟨s.seen, r, [], t.server, hseen, h.foreign, hopt, hport, hpayload, hturn⟩

/-- **A whole run.**  Until the server answers, `head` waits, and then the answer to it is there. -/
theorem Waits.run {es : List Event} (h : Waits server head s) (hrun : run next s es = some t) :
    (∀ r, .serve r ∉ es) ∧ Waits server head t ∨
      (∃ r, .serve r ∈ es) ∧ Answered server head t := by
  induction es generalizing s with
  | nil =>
    cases hrun
    exact .inl ⟨fun _ => List.not_mem_nil, h⟩
  | cons e es ih =>
    obtain ⟨u, hu, hrest⟩ := run_cons_eq_some.mp hrun
    cases e with
    | send p =>
      rcases ih (h.send hu) hrest with ⟨hno, ht⟩ | ⟨⟨r, hr⟩, ht⟩
      · exact .inl ⟨fun r hr => hno r ((List.mem_cons.mp hr).resolve_left Event.noConfusion), ht⟩
      · exact .inr ⟨⟨r, List.mem_cons_of_mem _ hr⟩, ht⟩
    | serve r =>
      refine .inr ⟨⟨r, List.mem_cons_self⟩, ?_⟩
      exact run_keeps (I := Answered server head) (fun _ _ _ h hst => h.next hst) (h.serve hu)
        hrest

/-- A client that opens its socket. -/
theorem waits_opened {c : Client} {stack : CharArray PACKET_SIZE} (hown : c.Sends stack own)
    (hhead : (s.waiting ++ [own]).head? = some head) : Waits s.server head (s.opened own) := by
  obtain ⟨hopt, hsport, -, -⟩ := hown.eq
  refine ⟨fun p hp => ?_, rfl, hhead⟩
  rw [List.mem_singleton.mp hp]
  exact ⟨hopt, by rw [hsport]; decide⟩

/-! ### The reply -/

/-- What the server makes of a datagram. -/
theorem text_turn {p : UdpPacket} {peer : Endpoint} {server server' : Server Endpoint}
    (h : turn server (.datagram (datagram p) peer) = some server') :
    text server'.buf.bytes = text (server.buf.recv (datagram p).1).bytes ++ servStr ∧
      0 ∈ server'.buf.bytes := by
  obtain ⟨buf, hbuf, rfl⟩ := turn_datagram_eq_some.mp h
  have htext := CharArray.text_strncat UdpEcho.nul_not_mem_servStr hbuf
  rw [UdpEcho.servStr_take_len] at htext
  exact ⟨htext, CharArray.nul_mem_strncat hbuf⟩

/-- A client that got the answer to `head` prints it, if it is not too long for `packet`. -/
theorem output_answered (c : Client) (stack : CharArray PACKET_SIZE) (h : Answered server head s)
    (hshort : (text (server.buf.recv (datagram head).1).bytes).length ≤ 460) :
    ∃ rest, c.output stack s.seen =
      some (rest, some (text (server.buf.recv (datagram head).1).bytes ++ servStr)) := by
  obtain ⟨ps, r, rest, server', hseen, hps, hopt, hport, hpayload, hturn⟩ := h
  obtain ⟨htext, hnul⟩ := text_turn hturn
  have hservlen : servStr.length = 11 := rfl
  have hnul' : 0 ∈ r.payload.take 472 := by
    rw [hpayload, nul_mem_take_succ_iff, htext, List.length_append]
    exact ⟨hnul, by omega⟩
  refine ⟨rest, ?_⟩
  rw [hseen, output_reply c stack hps hopt hport hnul' rest, hpayload, htext]

/-- Nor is the answer of the server. -/
theorem length_answer_le (buf : CharArray UdpEcho.BUF_SIZE) :
    28 + ([] : List UInt8).length + buf.bytes.length ≤ 65535 := by
  rw [buf.length_eq]
  decide

/-- The answer to `p` that carries `buf`, on the loopback. -/
def answer (p : UdpPacket) (buf : CharArray UdpEcho.BUF_SIZE) : UdpPacket where
  tos := 0
  id := 0#16
  df := true
  ttl := 64
  check := 0#16
  saddr := 2130706433#32
  daddr := p.saddr
  options := []
  sport := SERVER_PORT
  dport := p.sport
  sum := 0#16
  payload := buf.bytes
  aligned := aligned_nil
  options_le := length_nil_le
  length_le := length_answer_le buf

/-- The server can answer a datagram that has room in its buffer. -/
theorem exists_serve {p : UdpPacket} (hw : s.waiting.head? = some p)
    (hturn : (turn s.server (.datagram (datagram p) ⟨p.saddr, p.sport⟩)).isSome) :
    ∃ r, (s.next (.serve r)).isSome := by
  obtain ⟨server, hserver⟩ := Option.isSome_iff_exists.mp hturn
  obtain ⟨ps, hps⟩ := List.head?_eq_some_iff.mp hw
  refine ⟨answer p server.buf, ?_⟩
  unfold next
  rw [hps]
  dsimp only
  rw [hserver, Option.bind_some, if_pos ⟨rfl, rfl, rfl, rfl, rfl⟩]
  rfl

/-- What the server reads of a client's packet. -/
theorem text_own {c : Client} {stack : CharArray PACKET_SIZE} (hown : c.Sends stack own)
    (buf : CharArray UdpEcho.BUF_SIZE) :
    0 ∈ (datagram own).1.take 11 ∧
      text (buf.recv (datagram own).1).bytes = text hiServer := by
  obtain ⟨-, -, -, rest, hpayload, hlen⟩ := hown.eq
  have hdatagram : (datagram own).1 = hiServer ++ rest :=
    (List.take_of_length_le (Nat.le_trans hlen (by decide))).trans hpayload
  have hnul : 0 ∈ hiServer := by decide
  refine ⟨?_, ?_⟩
  · rw [hdatagram, List.take_append_of_le_length (by decide)]
    exact hnul
  · rw [buf.bytes_recv (datagram own).2, hdatagram, List.append_assoc, text_append_of_mem hnul]

end Loopback

end EltexHomeworks.RawSocket
