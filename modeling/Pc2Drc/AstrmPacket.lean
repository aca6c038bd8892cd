import Pc2Drc.Lib.Buffer

/-! The `astrm` datagram: the packet buffer with its setters, the video format packet, and the
protocol header as it is documented. -/
namespace Pc2Drc
open Lib

abbrev kAstrmHeaderSize : ℕ := 8

abbrev kMaxAstrmPayloadSize : ℕ := 1700

inductive AstrmPacketType
  | kAudioData
  | kVideoFormat
  deriving DecidableEq, Repr

def AstrmPacketType.toByte : AstrmPacketType → UInt8
  | .kAudioData => 0
  | .kVideoFormat => 1

inductive AstrmFormat
  | kPcm24KHz
  | kPcm48KHz
  | kAlaw24KHz
  | kAlaw48KHz
  | kUlaw24KHz
  | kUlaw48KHz
  deriving DecidableEq, Repr

def AstrmFormat.toByte : AstrmFormat → UInt8
  | .kPcm24KHz => 0
  | .kPcm48KHz => 1
  | .kAlaw24KHz => 2
  | .kAlaw48KHz => 3
  | .kUlaw24KHz => 4
  | .kUlaw48KHz => 5

structure AstrmPacket where
  pkt : Buffer (kAstrmHeaderSize + kMaxAstrmPayloadSize)
  deriving DecidableEq

namespace AstrmPacket

def get (p : AstrmPacket) (i : ℕ) : UInt8 := p.pkt.get i

def set (p : AstrmPacket) (i : ℕ) (v : UInt8) : AstrmPacket := ⟨p.pkt.set i v⟩

def resetPacket : AstrmPacket := ⟨Buffer.zeros _⟩

def payloadSize (p : AstrmPacket) : ℕ := (u16OfBytes (p.get 2) (p.get 3)).toNat

def setPacketType (p : AstrmPacket) (type : AstrmPacketType) : AstrmPacket :=
  p.set 0 (insertBits (p.get 0) type.toByte 2 3)

def setFormat (p : AstrmPacket) (format : AstrmFormat) : AstrmPacket :=
  p.set 0 (insertBits (p.get 0) format.toByte 5 8)

/-- The setters of the one-bit flags. -/
def setFlag (p : AstrmPacket) (idx pos : ℕ) (flag : Bool) : AstrmPacket :=
  p.set idx (insertBits (p.get idx) (if flag then 1 else 0) pos (pos + 1))

def setMonoFlag (p : AstrmPacket) (flag : Bool) : AstrmPacket := p.setFlag 0 4 flag

def setVibrateFlag (p : AstrmPacket) (flag : Bool) : AstrmPacket := p.setFlag 0 3 flag

def setSeqId (p : AstrmPacket) (seqid : UInt16) : AstrmPacket :=
  (p.set 0 (insertBits (p.get 0) (seqid >>> 8).toUInt8 0 2)).set 1 (seqid &&& 0xFF).toUInt8

def setTimestamp (p : AstrmPacket) (ts : UInt32) : AstrmPacket :=
  (((p.set 4 (ts &&& 0xFF).toUInt8).set 5 ((ts >>> 8) &&& 0xFF).toUInt8).set 6
    ((ts >>> 16) &&& 0xFF).toUInt8).set 7 ((ts >>> 24) &&& 0xFF).toUInt8

def setPayload (p : AstrmPacket) (payload : List UInt8) : Except Fault AstrmPacket :=
  if payload.length ≤ kMaxAstrmPayloadSize then do
    let p : AstrmPacket := ⟨← p.pkt.memcpy 8 payload⟩
    return (p.set 2 (payload.length >>> 8).toUInt8).set 3 (payload.length &&& 0xFF).toUInt8
  else .error .assertion

/-- The datagram `[GetBytes(), GetBytes() + GetSize())` handed to the socket. -/
def getBytes (p : AstrmPacket) : List UInt8 :=
  p.pkt.bytes.take (kAstrmHeaderSize + p.payloadSize)

end AstrmPacket

/-- A timestamp and fixed format words. -/
def videoFormatPayload (ts : UInt32) : List UInt8 :=
  [(ts &&& 0xFF).toUInt8, ((ts >>> 8) &&& 0xFF).toUInt8, ((ts >>> 16) &&& 0xFF).toUInt8,
    ((ts >>> 24) &&& 0xFF).toUInt8,
    0x80, 0x3e, 0x00, 0x00,
    0x80, 0x3e, 0x00, 0x00,
    0x80, 0x3e, 0x00, 0x00,
    0x80, 0x3e, 0x00, 0x00,
    0x00, 0x00, 0x00, 0x00]

/-- The packet sent before each frame. -/
def generateAstrmPacket (ts : UInt32) : Except Fault AstrmPacket :=
  ((AstrmPacket.resetPacket.setPacketType .kVideoFormat).setTimestamp 0).setPayload
    (videoFormatPayload ts)

/-- The fields of a datagram that matter for a video format packet: its type and, in little-endian
order, the timestamp at the start of its payload. -/
structure VideoFormat where
  isVideoFormat : Bool
  timestamp : ℕ
  deriving DecidableEq, Repr

/-- A little-endian 32-bit word. -/
def le32 (b0 b1 b2 b3 : UInt8) : ℕ :=
  b0.toNat + b1.toNat * 2 ^ 8 + b2.toNat * 2 ^ 16 + b3.toNat * 2 ^ 24

/-- The documented layout: bit 10 of the first 16-bit word is the type, the second word is the
size of the payload that follows the eight bytes of header. -/
def VideoFormat.read : List UInt8 → Option VideoFormat
  | b0 :: _ :: b2 :: b3 :: _ :: _ :: _ :: _ :: payload =>
    if payload.length = b2.toNat * 2 ^ 8 + b3.toNat then
      match payload with
      | t0 :: t1 :: t2 :: t3 :: _ => some ⟨b0.toNat / 2 ^ 2 % 2 = 1, le32 t0 t1 t2 t3⟩
      | _ => none
    else none
  | _ => none

/-- The documented header, the timestamp apart, and the payload it announces. -/
structure AstrmDatagram where
  format : ℕ
  mono : Bool
  vibrate : Bool
  isVideoFormat : Bool
  seqId : ℕ
  payload : List UInt8
  deriving DecidableEq, Repr

/-- The fields of the first 16-bit word from its highest bit down. -/
def AstrmDatagram.read : List UInt8 → Option AstrmDatagram
  | b0 :: b1 :: b2 :: b3 :: _ :: _ :: _ :: _ :: payload =>
    let w := b0.toNat * 2 ^ 8 + b1.toNat
    if payload.length = b2.toNat * 2 ^ 8 + b3.toNat then
      some {
        format := w / 2 ^ 13
        mono := w / 2 ^ 12 % 2 = 1
        vibrate := w / 2 ^ 11 % 2 = 1
        isVideoFormat := w / 2 ^ 10 % 2 = 1
        seqId := w % 2 ^ 10
        payload := payload }
    else none
  | _ => none

theorem le32_timestamp (ts : UInt32) :
    le32 (ts &&& 0xFF).toUInt8 ((ts >>> 8) &&& 0xFF).toUInt8 ((ts >>> 16) &&& 0xFF).toUInt8
      ((ts >>> 24) &&& 0xFF).toUInt8 = ts.toNat := by
  have := ts.toNat_lt
  simp [le32, and_byte_mask, Nat.shiftRight_eq_div_pow]
  omega

namespace AstrmPacket

theorem bytes_reset : resetPacket.pkt.bytes =
    [0, 0, 0, 0, 0, 0, 0, 0] ++ List.replicate kMaxAstrmPayloadSize 0 := by
  have h := List.replicate_append_replicate (n := kAstrmHeaderSize) (m := kMaxAstrmPayloadSize)
    (a := (0 : UInt8))
  exact h.symm

theorem setPayload_ok {p : AstrmPacket} {payload : List UInt8}
    (h : payload.length ≤ kMaxAstrmPayloadSize) : ∃ b,
      p.pkt.memcpy 8 payload = .ok b ∧ p.setPayload payload = .ok
        (((⟨b⟩ : AstrmPacket).set 2 (payload.length >>> 8).toUInt8).set 3
          (payload.length &&& 0xFF).toUInt8) := by
  obtain ⟨b, hb⟩ := Buffer.memcpy_ok (b := p.pkt) (Nat.add_le_add_left h kAstrmHeaderSize)
  rw [setPayload, if_pos h, hb]
  exact ⟨b, rfl, rfl⟩

/-- The datagram of a packet whose payload was set: its header, the size, and the payload. -/
theorem getBytes_setPayload {p : AstrmPacket} {h0 h1 h2 h3 h4 h5 h6 h7 : UInt8}
    {rest payload : List UInt8}
    (hp : p.pkt.bytes = h0 :: h1 :: h2 :: h3 :: h4 :: h5 :: h6 :: h7 :: rest)
    (hlen : payload.length ≤ kMaxAstrmPayloadSize) : ∃ p', p.setPayload payload = .ok p' ∧
      p'.getBytes = h0 :: h1 :: (payload.length >>> 8).toUInt8 :: (payload.length &&& 0xFF).toUInt8
        :: h4 :: h5 :: h6 :: h7 :: payload := by
  obtain ⟨b, hb, hset⟩ := setPayload_ok (p := p) hlen
  obtain ⟨-, hbytes⟩ := Buffer.memcpy_eq_ok.mp hb
  refine ⟨_, hset, ?_⟩
  have hfull : (((⟨b⟩ : AstrmPacket).set 2 (payload.length >>> 8).toUInt8).set 3
      (payload.length &&& 0xFF).toUInt8).pkt.bytes =
      ([h0, h1, (payload.length >>> 8).toUInt8, (payload.length &&& 0xFF).toUInt8, h4, h5, h6, h7]
        ++ payload) ++ rest.drop payload.length := by
    simp [set, hbytes, hp, blit, Nat.add_comm 8]
  generalize ((⟨b⟩ : AstrmPacket).set 2 (payload.length >>> 8).toUInt8).set 3
    (payload.length &&& 0xFF).toUInt8 = p' at hfull ⊢
  have hsize : p'.payloadSize = payload.length := by
    have hn := toNat_sizeBytes (lt_of_le_of_lt hlen (by decide))
    rw [payloadSize, toNat_u16OfBytes]
    simpa [get, Buffer.get, hfull] using hn
  rw [getBytes, hsize, hfull]
  exact List.take_left' (Nat.add_comm payload.length 8)

/-- The packet is built without a fault and announces its timestamp. -/
theorem read_generateAstrmPacket (ts : UInt32) : ∃ p, generateAstrmPacket ts = .ok p ∧
    VideoFormat.read p.getBytes = some ⟨true, ts.toNat⟩ := by
  have htype : insertBits 0 AstrmPacketType.kVideoFormat.toByte 2 3 = 4 := by decide
  have hhead : ((resetPacket.setPacketType .kVideoFormat).setTimestamp 0).pkt.bytes =
      4 :: 0 :: 0 :: 0 :: 0 :: 0 :: 0 :: 0 :: List.replicate kMaxAstrmPayloadSize 0 := by
    simp [setPacketType, setTimestamp, set, get, Buffer.get, bytes_reset, htype]
  have hlen : (videoFormatPayload ts).length ≤ kMaxAstrmPayloadSize := by
    rw [show (videoFormatPayload ts).length = 24 from rfl]
    decide
  obtain ⟨p, hp, hget⟩ := getBytes_setPayload hhead hlen
  refine ⟨p, hp, ?_⟩
  rw [hget]
  simp only [VideoFormat.read, videoFormatPayload, le32_timestamp]
  simp

end AstrmPacket

end Pc2Drc
