import Mathlib.Data.List.Basic

namespace EltexHomeworks.Lib

/-!
# IPv4 packets that carry UDP

A `UdpPacket` is a whole IPv4 packet with a UDP datagram in it, well formed by construction: the
length of its header, its total length and the length of the datagram are those of its parts.  The
checksums are left open.

* `UdpPacket.bytes` — the parts of a packet, one after the other;
* `UdpPacket.drop_ipHeader` — behind the first 20 bytes come the options, and then the datagram.
-/

/-- A 16-bit number in network byte order. -/
def be16 (v : BitVec 16) : List UInt8 := [UInt8.ofNat (v.toNat / 256), UInt8.ofNat v.toNat]

/-- A 32-bit number in network byte order. -/
def be32 (v : BitVec 32) : List UInt8 :=
  [UInt8.ofNat (v.toNat / 16777216), UInt8.ofNat (v.toNat / 65536), UInt8.ofNat (v.toNat / 256),
    UInt8.ofNat v.toNat]

@[simp] theorem length_be16 (v : BitVec 16) : (be16 v).length = 2 := rfl

@[simp] theorem length_be32 (v : BitVec 32) : (be32 v).length = 4 := rfl

/-- **Numbers are read back** from the network byte order. -/
theorem be16_inj {v w : BitVec 16} : be16 v = be16 w ↔ v = w := by
  constructor
  · intro h
    obtain ⟨hhigh, hrest⟩ := List.cons.inj h
    obtain ⟨hlow, -⟩ := List.cons.inj hrest
    have hhigh' := congrArg UInt8.toNat hhigh
    have hlow' := congrArg UInt8.toNat hlow
    simp only [UInt8.toNat_ofNat'] at hhigh' hlow'
    have hv := v.isLt
    have hw := w.isLt
    exact BitVec.eq_of_toNat_eq (by omega)
  · rintro rfl
    rfl

/-- An IPv4 packet with a UDP datagram; `df` is its flag "don't fragment". -/
structure UdpPacket where
  tos : UInt8
  id : BitVec 16
  df : Bool
  ttl : UInt8
  check : BitVec 16
  saddr : BitVec 32
  daddr : BitVec 32
  options : List UInt8
  sport : BitVec 16
  dport : BitVec 16
  sum : BitVec 16
  payload : List UInt8
  aligned : options.length % 4 = 0
  options_le : options.length ≤ 40
  length_le : 28 + options.length + payload.length ≤ 65535

namespace UdpPacket

variable (p : UdpPacket)

/-- The length of the header, in words of four bytes: 5 to 15. -/
def ihl : Nat := 5 + p.options.length / 4

/-- The length of the whole packet. -/
def totLen : Nat := 28 + p.options.length + p.payload.length

/-- The first 20 bytes of the header. -/
def ipHeader : List UInt8 :=
  [UInt8.ofNat (64 + p.ihl), p.tos] ++ be16 (.ofNat 16 p.totLen) ++ be16 p.id ++
    be16 (if p.df then 16384 else 0) ++ [p.ttl, 17] ++ be16 p.check ++ be32 p.saddr ++ be32 p.daddr

/-- The header of the datagram. -/
def udpHeader : List UInt8 :=
  be16 p.sport ++ be16 p.dport ++ be16 (.ofNat 16 (8 + p.payload.length)) ++ be16 p.sum

/-- The packet as it is delivered. -/
def bytes : List UInt8 := p.ipHeader ++ (p.options ++ (p.udpHeader ++ p.payload))

@[simp] theorem length_ipHeader : p.ipHeader.length = 20 := rfl

@[simp] theorem length_udpHeader : p.udpHeader.length = 8 := rfl

@[simp] theorem length_bytes : p.bytes.length = p.totLen := by
  simp only [bytes, List.length_append, length_ipHeader, length_udpHeader, totLen]
  omega

/-- What follows the first 20 bytes. -/
theorem drop_ipHeader : p.bytes.drop 20 = p.options ++ (p.udpHeader ++ p.payload) :=
  List.drop_left' p.length_ipHeader

end UdpPacket

end EltexHomeworks.Lib
