import EltexHomeworks.Lib.CString
import EltexHomeworks.Lib.Ipv4
import EltexHomeworks.Lib.Run

namespace EltexHomeworks.RawSocket

open EltexHomeworks.Lib

/-!
# Raw-socket clients — the reply behind fixed offsets

Both clients form a packet of their own, send it, and receive whole IPv4 packets into the same
buffer until one seems to come from port 1414.  They take 20 bytes for the length of every IP header:
the source port is read at offset 20 and the text at offset 28, whatever the header says, and the
text is what the buffer holds there up to a NUL, received or not.

* `output` — what a client does with the packets, `expected` what it is to do;
* `decodes_iff` — the packets for which the two are the same.
-/

/-- The size of `packet`. -/
def PACKET_SIZE : Nat := 500

def IP_HEADER_LEN : Nat := 20

/-- `sizeof(struct udphdr)`. -/
def UDP_HEADER_LEN : Nat := 8

/-- `Hi server!` with its terminator. -/
def hiServer : List UInt8 := [72, 105, 32, 115, 101, 114, 118, 101, 114, 33, 0]

/-- The two programs, `raw_socket_udp_client` and `raw_socket_l3`. -/
inductive Client
  | udpClient
  | l3
deriving DecidableEq, Repr

namespace Client

/-- The UDP header of the client's own packet. -/
def myUdpHeader (ulen : BitVec 16) : List UInt8 :=
  be16 2395#16 ++ be16 1414#16 ++ be16 ulen ++ be16 0#16

/-- The IP header `raw_socket_l3` puts in front of it: `tot_len` is 500 in the byte order of the
    host, a little-endian one, and nothing of `htonl(22222)` is left in the 16 bits of `id`. -/
def myIpHeader : List UInt8 :=
  [69, 0, 244, 1, 0, 0, 0, 0, 128, 17, 0, 0, 127, 0, 0, 1, 127, 0, 0, 1]

/-- `packet` when the client sends it, with `stack` as it was: `raw_socket_l3` clears it first. -/
def myPacket (c : Client) (stack : CharArray PACKET_SIZE) : CharArray PACKET_SIZE :=
  match c with
  | udpClient => stack.recv (myUdpHeader 500 ++ hiServer)
  | l3 =>
    CharArray.recv ⟨List.replicate PACKET_SIZE 0, List.length_replicate⟩
      (myIpHeader ++ myUdpHeader 480 ++ hiServer)

/-- The offset of `data` in `packet`. -/
def data : Client → Nat
  | udpClient => UDP_HEADER_LEN
  | l3 => IP_HEADER_LEN + UDP_HEADER_LEN

/-- The offset of the text to print: `data+IP_HEADER_LEN`, and `data`. -/
def textAt : Client → Nat
  | udpClient => data udpClient + IP_HEADER_LEN
  | l3 => data l3

/-- Both clients print from the same offset. -/
theorem textAt_eq (c : Client) : c.textAt = 28 := by
  cases c <;> rfl

end Client

/-! ### The receive loop -/

/-- `recvfrom` into `packet`: a packet that is too long is cut off. -/
def recvfrom (buf : CharArray PACKET_SIZE) (p : UdpPacket) : CharArray PACKET_SIZE :=
  buf.recv (p.bytes.take PACKET_SIZE)

/-- `((struct udphdr*)(packet+IP_HEADER_LEN))->uh_sport == htons(1414)`. -/
def fromServer (buf : CharArray PACKET_SIZE) : Bool :=
  (buf.bytes.drop IP_HEADER_LEN).take 2 = be16 1414#16

/-- The loop: the packets that are left and the buffer when it ends, `none` while it waits. -/
def receive (buf : CharArray PACKET_SIZE) : List UdpPacket →
    Option (List UdpPacket × CharArray PACKET_SIZE)
  | [] => none
  | p :: ps => if fromServer (recvfrom buf p) then some (ps, recvfrom buf p)
    else receive (recvfrom buf p) ps

/-- `printf("%s\n", ...)` from the offset `i`; `none` when it finds no terminator in `packet`. -/
def printed (buf : CharArray PACKET_SIZE) (i : Nat) : Option Str :=
  if 0 ∈ buf.bytes.drop i then some (text (buf.bytes.drop i)) else none

/-- What a client does with the packets `ps`: which are left, and what it prints. -/
def Client.output (c : Client) (stack : CharArray PACKET_SIZE) (ps : List UdpPacket) :
    Option (List UdpPacket × Option Str) :=
  (receive (c.myPacket stack) ps).map fun r => (r.1, printed r.2 c.textAt)

/-- What it is to do: to print the payload of the first packet from port 1414, up to a NUL; the
    payload begins where the length in the IP header says, behind the options. -/
def expected : List UdpPacket → Option (List UdpPacket × Option Str)
  | [] => none
  | p :: ps => if p.sport = 1414#16 then some (ps, some (text p.payload)) else expected ps

/-! ### The condition -/

/-- The loop from one packet to the next one. -/
def next (buf : CharArray PACKET_SIZE) (p : UdpPacket) : Option (CharArray PACKET_SIZE) :=
  if fromServer (recvfrom buf p) then none else some (recvfrom buf p)

/-- Where the port is looked for: the header has no options, or these begin with the bytes of 1414
    exactly when that is the port. -/
def PortSeen (p : UdpPacket) : Prop :=
  p.options = [] ∨ (p.options.take 2 = be16 1414#16 ↔ p.sport = 1414#16)

/-- What stands between the offset of the text and the payload: as many bytes as the options. -/
def front (p : UdpPacket) : List UInt8 := (p.options ++ p.udpHeader).drop 8

/-- Where the text is looked for: the header has no options, and the payload has a NUL in the buffer
    or ends in front of one; or the payload is not reached, and reads like what is. -/
def TextSeen (buf : CharArray PACKET_SIZE) (p : UdpPacket) : Prop :=
  p.options = [] ∧ (0 ∈ p.payload.take 472 ∨ buf.bytes[28 + p.payload.length]? = some 0) ∨
    0 ∈ front p ∧ text (front p) = text p.payload

/-- The packet is decoded. -/
def Decoded (buf : CharArray PACKET_SIZE) (p : UdpPacket) : Prop :=
  PortSeen p ∧ (p.sport = 1414#16 → TextSeen buf p)

/-! ### One packet -/

variable {buf : CharArray PACKET_SIZE} {p : UdpPacket}

theorem length_front (p : UdpPacket) : (front p).length = p.options.length := by
  rw [front, List.length_drop, List.length_append, UdpPacket.length_udpHeader]
  omega

/-- The buffer behind the first 20 bytes: the packet, and what was there behind it. -/
theorem drop_recvfrom (buf : CharArray PACKET_SIZE) (p : UdpPacket) :
    (recvfrom buf p).bytes.drop 20 =
      (p.options ++ (p.udpHeader ++ p.payload)).take 480 ++ buf.bytes.drop p.totLen := by
  have hlen : (p.bytes.take PACKET_SIZE).length = min PACKET_SIZE p.totLen := by
    rw [List.length_take, p.length_bytes]
  have htot : 28 ≤ p.totLen := by rw [UdpPacket.totLen]; omega
  have hsize : PACKET_SIZE = 500 := rfl
  rw [recvfrom, buf.bytes_recv (List.length_take_le ..), List.drop_append_of_le_length (by omega),
    List.drop_take, p.drop_ipHeader, hlen]
  congr 1
  rcases Nat.le_total p.totLen PACKET_SIZE with hle | hle
  · rw [Nat.min_eq_right hle]
  · -- a packet that fills the buffer leaves nothing of it
    rw [Nat.min_eq_left hle, List.drop_of_length_le (Nat.le_of_eq buf.length_eq),
      List.drop_of_length_le (by rw [buf.length_eq]; exact hle)]

/-- **The port** is the one the client reads when it is seen. -/
theorem fromServer_iff (buf : CharArray PACKET_SIZE) (p : UdpPacket) :
    (fromServer (recvfrom buf p) = true ↔ p.sport = 1414#16) ↔ PortSeen p := by
  unfold fromServer PortSeen
  rw [decide_eq_true_iff, IP_HEADER_LEN, drop_recvfrom]
  have hle := p.options_le
  by_cases ho : p.options = []
  · rw [ho]
    refine iff_of_true ?_ (Or.inl rfl)
    show be16 p.sport = be16 1414#16 ↔ _
    exact be16_inj
  · -- there are at least four bytes of options
    have hpos := List.length_pos_iff.mpr ho
    have halign := p.aligned
    rw [or_iff_right ho, List.take_append_of_le_length, List.take_take,
      List.take_append_of_le_length (by omega)]
    · rfl
    · rw [List.length_take, List.length_append]
      omega

/-- What the client reads as text. -/
theorem drop_text (buf : CharArray PACKET_SIZE) (p : UdpPacket) :
    (recvfrom buf p).bytes.drop 28 =
      front p ++ (p.payload.take (472 - p.options.length) ++ buf.bytes.drop p.totLen) := by
  have hle := p.options_le
  have hfront := length_front p
  have h20 := congrArg (List.drop 8) (drop_recvfrom buf p)
  rw [List.drop_drop, ← List.append_assoc p.options, List.drop_append_of_le_length,
    List.drop_take, List.drop_append_of_le_length] at h20
  · rw [h20, ← front, List.take_append, List.take_of_length_le (by omega), hfront,
      List.append_assoc]
  · rw [List.length_append, UdpPacket.length_udpHeader]
    omega
  · rw [List.length_take, List.length_append, List.length_append, UdpPacket.length_udpHeader]
    omega

/-- A block that was stored up to the place `m`, with something behind it only if that is all of it,
    reads as its text and something more. -/
theorem text_take_append {a rest : List UInt8} {m : Nat} (h : rest ≠ [] → a.length ≤ m)
    (h0 : 0 ∈ a.take m ++ rest) :
    ∃ r, text (a.take m ++ rest) = text a ++ r ∧
      (r = [] ↔ 0 ∈ a.take m ∨ rest.head? = some 0) := by
  by_cases hm : 0 ∈ a.take m
  · refine ⟨[], ?_, iff_of_true rfl (Or.inl hm)⟩
    rw [text_append_of_mem hm, List.append_nil, ← text_append_of_mem hm (a.drop m),
      List.take_append_drop]
  · have hrest : 0 ∈ rest := (List.mem_append.mp h0).resolve_left hm
    have hne := List.ne_nil_of_mem hrest
    rw [List.take_of_length_le (h hne)] at hm ⊢
    refine ⟨text rest, by rw [text_append_of_not_mem hm, text_of_not_mem hm], ?_⟩
    rw [or_iff_right hm, text_eq_nil_iff, List.head?_eq_some_head hne]
    simp

/-- **The text** is the one the client prints when it is seen. -/
theorem printed_iff (buf : CharArray PACKET_SIZE) (p : UdpPacket) :
    printed (recvfrom buf p) 28 = some (text p.payload) ↔ TextSeen buf p := by
  have hfront := length_front p
  have hle := p.options_le
  rw [printed, drop_text, Option.ite_none_right_eq_some, Option.some_inj, TextSeen]
  by_cases hf : 0 ∈ front p
  · -- the string ends before the payload
    have hopt : p.options ≠ [] := by
      intro ho
      rw [ho] at hfront
      rw [List.length_eq_zero_iff.mp hfront] at hf
      cases hf
    rw [text_append_of_mem hf, and_iff_right (List.mem_append_left _ hf), and_iff_right hf,
      or_iff_right fun h => hopt h.1]
  · rw [text_append_of_not_mem hf, List.mem_append, or_iff_right hf, or_iff_left fun h => hf h.1]
    have hrest : buf.bytes.drop p.totLen ≠ [] → p.payload.length ≤ 472 - p.options.length := by
      intro hne
      have hlt := List.length_pos_iff.mpr hne
      rw [List.length_drop, buf.length_eq, UdpPacket.totLen, PACKET_SIZE] at hlt
      omega
    have hhead : (buf.bytes.drop p.totLen).head? = buf.bytes[p.totLen]? := by
      rw [List.head?_drop]
    constructor
    · rintro ⟨h0, htext⟩
      obtain ⟨r, hr, hnil⟩ := text_take_append hrest h0
      rw [hr] at htext
      -- nothing stands in front of the text of the payload or behind it
      have hlen := congrArg List.length htext
      rw [List.length_append, List.length_append, hfront] at hlen
      have ho : p.options = [] := List.length_eq_zero_iff.mp (by omega)
      have hseen := hnil.mp (List.length_eq_zero_iff.mp (by omega))
      rw [hhead, UdpPacket.totLen, ho] at hseen
      exact ⟨ho, hseen⟩
    · rintro ⟨ho, hseen⟩
      have hseen' : 0 ∈ p.payload.take (472 - p.options.length) ∨
          (buf.bytes.drop p.totLen).head? = some 0 := by
        rw [hhead, UdpPacket.totLen, ho]
        exact hseen
      have h0 : 0 ∈ p.payload.take (472 - p.options.length) ++ buf.bytes.drop p.totLen :=
        hseen'.elim (List.mem_append_left _) fun h => List.mem_append_right _ (List.mem_of_head? h)
      obtain ⟨r, hr, hnil⟩ := text_take_append hrest h0
      rw [ho] at hfront
      rw [hr, hnil.mpr hseen', List.append_nil, List.length_eq_zero_iff.mp hfront]
      exact ⟨h0, rfl⟩

/-! ### Runs -/

theorem length_of_receive {ps rest : List UdpPacket} {b : CharArray PACKET_SIZE}
    (h : receive buf ps = some (rest, b)) : rest.length < ps.length := by
  induction ps generalizing buf with
  | nil => cases h
  | cons p ps ih =>
    rw [receive] at h
    rw [List.length_cons]
    split at h
    · cases h
      exact Nat.lt_succ_self _
    · exact Nat.lt_succ_of_lt (ih h)

theorem length_of_expected {ps rest : List UdpPacket} {t : Option Str}
    (h : expected ps = some (rest, t)) : rest.length < ps.length := by
  induction ps with
  | nil => cases h
  | cons p ps ih =>
    rw [expected] at h
    rw [List.length_cons]
    split at h
    · cases h
      exact Nat.lt_succ_self _
    · exact Nat.lt_succ_of_lt (ih h)

/-- The loop and the print do what is expected exactly when the packets are decoded. -/
theorem receive_iff (buf : CharArray PACKET_SIZE) (ps : List UdpPacket) :
    ((receive buf ps).map fun r => (r.1, printed r.2 28)) = expected ps ↔
      Along next Decoded buf ps := by
  induction ps generalizing buf with
  | nil => exact iff_of_true rfl trivial
  | cons p ps ih =>
    have hport := fromServer_iff buf p
    rw [receive, expected, Along, next, Decoded, ← hport, ← printed_iff]
    by_cases hs : fromServer (recvfrom buf p) = true
    · rw [if_pos hs, if_pos hs]
      by_cases hp : p.sport = 1414#16
      · rw [if_pos hp]
        simp [hs, hp]
      · -- the client stops at a packet too early
        rw [if_neg hp]
        refine iff_of_false (fun h => ?_) fun h => hp (h.1.1.mp hs)
        exact Nat.lt_irrefl _ (length_of_expected h.symm)
    · rw [if_neg hs, if_neg hs]
      by_cases hp : p.sport = 1414#16
      · -- the client misses the packet
        rw [if_pos hp]
        refine iff_of_false (fun h => ?_) fun h => hs (h.1.1.mpr hp)
        obtain ⟨⟨rest, b⟩, hrest, hpair⟩ := Option.map_eq_some_iff.mp h
        obtain rfl : rest = ps := (Prod.mk.inj hpair).1
        exact Nat.lt_irrefl _ (length_of_receive hrest)
      · rw [if_neg hp, ih]
        simp [hs, hp]

/-- **Decoding.**  A client leaves its loop at the first packet from port 1414 and prints the payload
    of it if and only if each packet up to that one is decoded. -/
theorem decodes_iff (c : Client) (stack : CharArray PACKET_SIZE) (ps : List UdpPacket) :
    c.output stack ps = expected ps ↔ Along next Decoded (c.myPacket stack) ps := by
  rw [Client.output, c.textAt_eq]
  exact receive_iff (c.myPacket stack) ps

/-- A reply of the three letters `abc`, from 127.0.0.1 to 127.0.0.1. -/
def reply : UdpPacket where
  tos := 0
  id := 0
  df := true
  ttl := 64
  check := 15564
  saddr := 2130706433
  daddr := 2130706433
  options := []
  sport := 1414
  dport := 2395
  sum := 0
  payload := [97, 98, 99]
  aligned := rfl
  options_le := by decide
  length_le := by decide

/-- Behind the three letters the second client prints `server!`, of its own packet. -/
theorem not_decodes :
    ¬ ∀ (c : Client) (stack : CharArray PACKET_SIZE) (ps : List UdpPacket),
      c.output stack ps = expected ps := by
  intro h
  let zeros : CharArray PACKET_SIZE := ⟨List.replicate PACKET_SIZE 0, List.length_replicate⟩
  have hrun := (receive_iff (Client.l3.myPacket zeros) [reply]).mp (h .l3 zeros [reply])
  rcases hrun.1.2 rfl with ⟨-, h0 | h0⟩ | ⟨h0, -⟩
  · exact absurd h0 (by decide)
  · exact absurd h0 (by decide)
  · cases h0

end EltexHomeworks.RawSocket
