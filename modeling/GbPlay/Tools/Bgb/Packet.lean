import GbPlay.Server.Client
import Mathlib.Algebra.Group.Nat.Defs

/-!
# Packets of the BGB link cable protocol

`PACKET_FORMAT = '<4BI'`: four bytes and a timestamp of 32 bits, the lowest byte
first.
-/

namespace GbPlay.Tools.Bgb

open GbPlay.Server.Client (Byte)

def packetSizeBytes : Nat := 8

@[ext]
structure Packet where
  b1 : Byte
  b2 : Byte
  b3 : Byte
  b4 : Byte
  i1 : UInt32
  deriving DecidableEq, Repr

/-- Byte `k` of a timestamp. -/
def timestampByte (i : UInt32) (k : Nat) : Byte := UInt8.ofNat (i.toNat / 256 ^ k)

/-- The bytes of a packet on the wire. -/
def Packet.bytes (p : Packet) : List Byte :=
  [p.b1, p.b2, p.b3, p.b4, timestampByte p.i1 0, timestampByte p.i1 1, timestampByte p.i1 2,
    timestampByte p.i1 3]

/-- `struct.unpack(PACKET_FORMAT, data)`; `none` when it raises. -/
def unpack : List Byte → Option Packet
  | [b1, b2, b3, b4, t0, t1, t2, t3] =>
      some ⟨b1, b2, b3, b4,
        UInt32.ofNat (t0.toNat + 256 * t1.toNat + 256 ^ 2 * t2.toNat + 256 ^ 3 * t3.toNat)⟩
  | _ => none

@[simp] theorem length_bytes (p : Packet) : p.bytes.length = packetSizeBytes := rfl

theorem unpack_bytes (p : Packet) : unpack p.bytes = some p := by
  have hlt : p.i1.toNat < 2 ^ 32 := p.i1.toNat_lt
  have hsum : p.i1.toNat / 256 ^ 0 % 2 ^ 8 + 256 * (p.i1.toNat / 256 ^ 1 % 2 ^ 8) +
      256 ^ 2 * (p.i1.toNat / 256 ^ 2 % 2 ^ 8) + 256 ^ 3 * (p.i1.toNat / 256 ^ 3 % 2 ^ 8) =
        p.i1.toNat := by
    omega
  simp only [Packet.bytes, unpack, timestampByte, UInt8.toNat_ofNat', hsum, UInt32.ofNat_toNat]

/-- Only a whole packet can be unpacked. -/
theorem length_of_unpack {data : List Byte} {p : Packet} (h : unpack data = some p) :
    data.length = packetSizeBytes := by
  unfold unpack at h
  split at h
  · rfl
  · cases h

/-- The arguments of `_send_packet`; the second one is data of a callback, which
may be no byte. -/
structure Message where
  type : Byte
  b2 : Int := 0
  b3 : Byte := 0
  b4 : Byte := 0
  deriving DecidableEq, Repr

/-- `struct.pack(PACKET_FORMAT, …)`; `none` when it raises. -/
def Message.pack (m : Message) (i1 : UInt32) : Option Packet :=
  if 0 ≤ m.b2 ∧ m.b2 < 256 then some ⟨m.type, UInt8.ofNat m.b2.toNat, m.b3, m.b4, i1⟩ else none

theorem i1_of_pack {m : Message} {i1 : UInt32} {p : Packet} (h : m.pack i1 = some p) :
    p.i1 = i1 := by
  unfold Message.pack at h
  split at h <;> cases h
  rfl

end GbPlay.Tools.Bgb
