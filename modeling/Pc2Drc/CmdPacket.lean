import Pc2Drc.Lib.Memory

/-! The `cmd` datagram: the packet buffer with its setters and getters, and the main protocol
header as it is documented. -/
namespace Pc2Drc
open Lib

@[simp]
abbrev kCmdHeaderSize : ℕ := 8

abbrev kMaxCmdPayloadSize : ℕ := 1400

/-- An enumeration is cast from any 16-bit field, so a value may have no name. -/
inductive CmdPacketType
  | kQuery
  | kQueryAck
  | kReply
  | kReplyAck
  | unnamed (v : UInt16)
  deriving DecidableEq, Repr

def CmdPacketType.ofU16 (v : UInt16) : CmdPacketType :=
  if v = 0 then .kQuery
  else if v = 1 then .kQueryAck
  else if v = 2 then .kReply
  else if v = 3 then .kReplyAck
  else .unnamed v

def CmdPacketType.toU16 : CmdPacketType → UInt16
  | .kQuery => 0
  | .kQueryAck => 1
  | .kReply => 2
  | .kReplyAck => 3
  | .unnamed v => v

inductive CmdQueryType
  | kGenericCommand
  | kUvcUacCommand
  | kTimeCommand
  | unnamed (v : UInt16)
  deriving DecidableEq, Repr

def CmdQueryType.ofU16 (v : UInt16) : CmdQueryType :=
  if v = 0 then .kGenericCommand
  else if v = 1 then .kUvcUacCommand
  else if v = 2 then .kTimeCommand
  else .unnamed v

def CmdQueryType.toU16 : CmdQueryType → UInt16
  | .kGenericCommand => 0
  | .kUvcUacCommand => 1
  | .kTimeCommand => 2
  | .unnamed v => v

/-- The `pkt_` array. A packet built from a datagram leaves the bytes it did not copy unwritten. -/
structure CmdPacket where
  cells : Cells
  length_cells : cells.length = kCmdHeaderSize + kMaxCmdPayloadSize

namespace CmdPacket

def resetPacket : CmdPacket :=
  ⟨List.replicate (kCmdHeaderSize + kMaxCmdPayloadSize) (some 0), List.length_replicate⟩

/-- The constructor from a received datagram: an unchecked `memcpy` of its whole length. -/
def ofPacket (packet : List UInt8) : Except Fault CmdPacket :=
  if h : packet.length ≤ kCmdHeaderSize + kMaxCmdPayloadSize then
    .ok ⟨blit (List.replicate (kCmdHeaderSize + kMaxCmdPayloadSize) none) 0 (packet.map some), by
      rw [length_blit] <;> simp only [List.length_replicate, List.length_map]; omega⟩
  else .error .overrun

def packetType (p : CmdPacket) : Except Fault CmdPacketType := do
  let hi ← load p.cells 1
  let lo ← load p.cells 0
  return .ofU16 (u16OfBytes hi lo)

def queryType (p : CmdPacket) : Except Fault CmdQueryType := do
  let hi ← load p.cells 3
  let lo ← load p.cells 2
  return .ofU16 (u16OfBytes hi lo)

def seqId (p : CmdPacket) : Except Fault UInt16 := do
  let hi ← load p.cells 7
  let lo ← load p.cells 6
  return u16OfBytes hi lo

def payloadSize (p : CmdPacket) : Except Fault ℕ := do
  let hi ← load p.cells 5
  let lo ← load p.cells 4
  return (u16OfBytes hi lo).toNat

/-- The bytes `[Payload(), Payload() + PayloadSize())`. -/
def payload (p : CmdPacket) : Except Fault (List UInt8) := do
  loadRange p.cells kCmdHeaderSize (← p.payloadSize)

def setByte (p : CmdPacket) (i : ℕ) (v : UInt8) : CmdPacket :=
  ⟨p.cells.set i (some v), by simp [p.length_cells]⟩

def setPacketType (p : CmdPacket) (type : CmdPacketType) : CmdPacket :=
  (p.setByte 0 (loByte type.toU16)).setByte 1 (hiByte type.toU16)

def setQueryType (p : CmdPacket) (type : CmdQueryType) : CmdPacket :=
  (p.setByte 2 (loByte type.toU16)).setByte 3 (hiByte type.toU16)

def setSeqId (p : CmdPacket) (seqid : UInt16) : CmdPacket :=
  (p.setByte 6 (loByte seqid)).setByte 7 (hiByte seqid)

def setPayload (p : CmdPacket) (payload : List UInt8) : Except Fault CmdPacket :=
  if h : payload.length ≤ kMaxCmdPayloadSize then
    let copied : CmdPacket := ⟨blit p.cells kCmdHeaderSize (payload.map some), by
      rw [length_blit] <;> simp only [p.length_cells, List.length_map]; omega⟩
    .ok ((copied.setByte 4 (payload.length &&& 0xFF).toUInt8).setByte 5
      (payload.length >>> 8).toUInt8)
  else .error .assertion

def getSize (p : CmdPacket) : Except Fault ℕ := do
  return kCmdHeaderSize + (← p.payloadSize)

/-- The datagram `[GetBytes(), GetBytes() + GetSize())` handed to the socket. -/
def getBytes (p : CmdPacket) : Except Fault (List UInt8) := do
  loadRange p.cells 0 (← p.getSize)

end CmdPacket

/-- A little-endian 16-bit field of the documented header. -/
def le16 (lo hi : UInt8) : ℕ := lo.toNat + 256 * hi.toNat

/-- The documented main protocol header. -/
structure CmdHeader where
  packetType : ℕ
  queryType : ℕ
  payloadSize : ℕ
  seqId : ℕ
  deriving DecidableEq, Repr

/-- The header fields as the client's types name them. -/
def CmdHeader.type (h : CmdHeader) : CmdPacketType := .ofU16 h.packetType.toUInt16

def CmdHeader.qtype (h : CmdHeader) : CmdQueryType := .ofU16 h.queryType.toUInt16

def CmdHeader.seqid (h : CmdHeader) : UInt16 := h.seqId.toUInt16

/-- A datagram read with the documented layout: its header and what follows it. -/
def CmdHeader.read : List UInt8 → Option (CmdHeader × List UInt8)
  | b0 :: b1 :: b2 :: b3 :: b4 :: b5 :: b6 :: b7 :: rest =>
    some (⟨le16 b0 b1, le16 b2 b3, le16 b4 b5, le16 b6 b7⟩, rest)
  | _ => none

/-- The datagram the documentation prescribes for given fields and payload. -/
def cmdDatagram (type qtype seqid : UInt16) (payload : List UInt8) : List UInt8 :=
  [loByte type, hiByte type, loByte qtype, hiByte qtype,
    loByte payload.length.toUInt16, hiByte payload.length.toUInt16, loByte seqid, hiByte seqid] ++
  payload

theorem le16_lo_hi (w : UInt16) : le16 (loByte w) (hiByte w) = w.toNat := by
  simp only [le16, toNat_loByte, toNat_hiByte]
  omega

/-- The documented layout reads back what it wrote. -/
theorem CmdHeader.read_cmdDatagram {type qtype seqid : UInt16} {payload : List UInt8}
    (h : payload.length < 65536) : CmdHeader.read (cmdDatagram type qtype seqid payload) =
      some (⟨type.toNat, qtype.toNat, payload.length, seqid.toNat⟩, payload) := by
  simp [cmdDatagram, CmdHeader.read, le16_lo_hi, Nat.mod_eq_of_lt h]

namespace CmdPacket

theorem loByte_length (n : ℕ) : (n &&& 0xFF).toUInt8 = loByte n.toUInt16 := by
  apply UInt8.toNat_inj.mp
  simp [toNat_loByte, and_byte_mask]

theorem hiByte_length (n : ℕ) : (n >>> 8).toUInt8 = hiByte n.toUInt16 := by
  apply UInt8.toNat_inj.mp
  simp [toNat_hiByte, Nat.shiftRight_eq_div_pow]
  omega

/-- A buffer that starts with a documented datagram sends exactly that datagram. -/
theorem getBytes_of_cells {p : CmdPacket} {type qtype seqid : UInt16} {payload : List UInt8}
    {r : Cells} (hp : p.cells = (cmdDatagram type qtype seqid payload).map some ++ r)
    (h : payload.length ≤ kMaxCmdPayloadSize) :
    p.getBytes = .ok (cmdDatagram type qtype seqid payload) := by
  have h4 : load p.cells 4 = .ok (loByte payload.length.toUInt16) := by
    simp [load_eq_ok, hp, cmdDatagram]
  have h5 : load p.cells 5 = .ok (hiByte payload.length.toUInt16) := by
    simp [load_eq_ok, hp, cmdDatagram]
  have hlen : payload.length % 65536 = payload.length :=
    Nat.mod_eq_of_lt (Nat.lt_of_le_of_lt h (by decide))
  have hsize : p.getSize = .ok (cmdDatagram type qtype seqid payload).length := by
    simp [getSize, payloadSize, h4, h5, cmdDatagram, bind, Except.bind, pure, Except.pure, hlen,
      kCmdHeaderSize]
    omega
  have hr := loadRange_append (l := []) (r := r) (b := cmdDatagram type qtype seqid payload)
  rw [getBytes, hsize, hp]
  exact hr

theorem cells_reset : resetPacket.cells =
    [some 0, some 0, some 0, some 0, some 0, some 0, some 0, some 0] ++
      List.replicate kMaxCmdPayloadSize (some 0) := by
  have h := List.replicate_append_replicate (n := 8) (m := kMaxCmdPayloadSize)
    (a := some (0 : UInt8))
  exact h.symm

/-- A packet without a payload, as an acknowledgement is built. -/
theorem getBytes_header (type : CmdPacketType) (qtype : CmdQueryType) (seqid : UInt16) :
    (((resetPacket.setPacketType type).setQueryType qtype).setSeqId seqid).getBytes =
      .ok (cmdDatagram type.toU16 qtype.toU16 seqid []) := by
  refine getBytes_of_cells (r := List.replicate kMaxCmdPayloadSize (some 0)) ?_ (by simp)
  simp [setPacketType, setQueryType, setSeqId, setByte, cells_reset, cmdDatagram, loByte, hiByte]

/-- A packet with a payload, as a query is built: the three setters, then the payload. -/
theorem getBytes_query (type : CmdPacketType) (qtype : CmdQueryType) (seqid : UInt16)
    {payload : List UInt8} (h : payload.length ≤ kMaxCmdPayloadSize) :
    ∃ p, (((resetPacket.setPacketType type).setQueryType qtype).setSeqId seqid).setPayload payload =
      .ok p ∧ p.getBytes = .ok (cmdDatagram type.toU16 qtype.toU16 seqid payload) := by
  rw [setPayload, dif_pos h]
  refine ⟨_, rfl, ?_⟩
  refine getBytes_of_cells
    (r := List.replicate (kMaxCmdPayloadSize - payload.length) (some 0)) ?_ h
  rw [loByte_length, hiByte_length]
  simp [setPacketType, setQueryType, setSeqId, setByte, cells_reset, cmdDatagram, blit,
    Nat.add_comm 8]

/-- A byte can be read from a received packet exactly when the datagram carried it. -/
theorem getElem?_ofPacket {packet : List UInt8} {p : CmdPacket} (hp : ofPacket packet = .ok p)
    {i : ℕ} {b : UInt8} : p.cells[i]? = some (some b) ↔ packet[i]? = some b := by
  unfold ofPacket at hp
  split at hp
  · cases hp
    by_cases hi : i < packet.length
    · simp [blit, hi, List.getElem?_append]
    · simp [blit, hi, List.getElem?_append, List.getElem?_replicate]
  · simp at hp

theorem load_ofPacket {packet : List UInt8} {p : CmdPacket} (hp : ofPacket packet = .ok p)
    {i : ℕ} {b : UInt8} : load p.cells i = .ok b ↔ packet[i]? = some b := by
  rw [load_eq_ok, getElem?_ofPacket hp]

theorem loadRange_ofPacket {packet bs : List UInt8} {p : CmdPacket} (hp : ofPacket packet = .ok p)
    {off n : ℕ} (hoff : off ≤ packet.length) : loadRange p.cells off n = .ok bs ↔
      off + n ≤ packet.length ∧ bs = (packet.drop off).take n := by
  rw [loadRange_eq_ok]
  constructor
  · rintro ⟨hlen, hget⟩
    have hget' : ∀ k, k < n → packet[off + k]? = bs[k]? := by
      intro k hk
      have hb : bs[k]? = some (bs.get ⟨k, by omega⟩) := List.getElem?_eq_getElem _
      rw [hb, ← getElem?_ofPacket hp, hget k hk, hb]
    refine ⟨?_, ?_⟩
    · rcases n with _ | n
      · simpa using hoff
      · have hk := hget' n (by omega)
        rw [List.getElem?_eq_getElem (by omega : n < bs.length)] at hk
        have := (List.getElem?_eq_some_iff.mp hk).1
        omega
    · apply List.ext_getElem?
      intro k
      rw [List.getElem?_take, List.getElem?_drop]
      split
      · exact (hget' k ‹_›).symm
      · exact List.getElem?_eq_none (by omega)
  · rintro ⟨hle, rfl⟩
    refine ⟨by simp; omega, ?_⟩
    intro k hk
    have hk' : (List.take n (List.drop off packet))[k]? = packet[off + k]? := by
      simp [hk]
    have hb := List.getElem?_eq_getElem (by omega : off + k < packet.length)
    rw [hk', hb, getElem?_ofPacket hp, hb]

theorem ofPacket_eq_ok {packet : List UInt8} : (∃ p, ofPacket packet = .ok p) ↔
    packet.length ≤ kCmdHeaderSize + kMaxCmdPayloadSize := by
  unfold ofPacket
  split <;> simp [*]

end CmdPacket

theorem CmdHeader.read_eq_none {msg : List UInt8} :
    CmdHeader.read msg = none ↔ msg.length < kCmdHeaderSize := by
  unfold CmdHeader.read
  split
  · simp
  · rename_i h
    simp only [true_iff]
    by_contra hlen
    match msg, hlen, h with
    | b0 :: b1 :: b2 :: b3 :: b4 :: b5 :: b6 :: b7 :: rest, _, h => exact h _ _ _ _ _ _ _ _ _ rfl
    | [], hlen, _ | [_], hlen, _ | [_, _], hlen, _ | [_, _, _], hlen, _ | [_, _, _, _], hlen, _
    | [_, _, _, _, _], hlen, _ | [_, _, _, _, _, _], hlen, _ | [_, _, _, _, _, _, _], hlen, _ =>
      simp at hlen

theorem CmdHeader.drop_of_read {msg rest : List UInt8} {h : CmdHeader}
    (hr : CmdHeader.read msg = some (h, rest)) :
    msg.drop kCmdHeaderSize = rest ∧ msg.length = kCmdHeaderSize + rest.length := by
  unfold CmdHeader.read at hr
  split at hr <;> simp_all
  omega

/-- The documented fields are what the getters of a received packet return. -/
theorem CmdPacket.getters_ofPacket {msg rest : List UInt8} {h : CmdHeader} {p : CmdPacket}
    (hp : CmdPacket.ofPacket msg = .ok p) (hr : CmdHeader.read msg = some (h, rest)) :
    p.packetType = .ok h.type ∧ p.queryType = .ok h.qtype ∧ p.seqId = .ok h.seqid ∧
    p.payloadSize = .ok h.payloadSize := by
  unfold CmdHeader.read at hr
  split at hr
  · rename_i b0 b1 b2 b3 b4 b5 b6 b7 _
    cases hr
    have hw : ∀ lo hi : UInt8, (le16 lo hi).toUInt16 = u16OfBytes hi lo := by
      intro lo hi
      apply UInt16.toNat_inj.mp
      have := lo.toNat_lt
      have := hi.toNat_lt
      simp [le16, toNat_u16OfBytes]
      omega
    have hs : le16 b4 b5 < 65536 := by
      have := b4.toNat_lt
      have := b5.toNat_lt
      simp only [le16]
      omega
    have hl := fun i b => (load_ofPacket hp (i := i) (b := b)).mpr
    simp [packetType, queryType, seqId, payloadSize, CmdHeader.type, CmdHeader.qtype,
      CmdHeader.seqid, hl 0 b0, hl 1 b1, hl 2 b2, hl 3 b3, hl 4 b4, hl 5 b5, hl 6 b6,
      hl 7 b7, bind, Except.bind, pure, Except.pure, ← hw, hs]
  · simp at hr

/-- The payload of a received packet is read without a fault exactly when the datagram carried
all of it. -/
theorem CmdPacket.payload_ofPacket {msg rest data : List UInt8} {h : CmdHeader} {p : CmdPacket}
    (hp : CmdPacket.ofPacket msg = .ok p) (hr : CmdHeader.read msg = some (h, rest)) :
    p.payload = .ok data ↔ h.payloadSize ≤ rest.length ∧ data = rest.take h.payloadSize := by
  have hsize := (CmdPacket.getters_ofPacket hp hr).2.2.2
  have hmsg := CmdHeader.drop_of_read hr
  rw [payload, hsize]
  change loadRange p.cells kCmdHeaderSize h.payloadSize = .ok data ↔ _
  rw [loadRange_ofPacket hp (by omega), hmsg.1, hmsg.2]
  simp

/-- A packet with an incomplete header has no sequence id that could be read. -/
theorem CmdPacket.seqId_ofPacket {msg : List UInt8} {p : CmdPacket}
    (hp : CmdPacket.ofPacket msg = .ok p) (hr : CmdHeader.read msg = none) (s : UInt16) :
    p.seqId ≠ .ok s := by
  intro hs
  simp only [seqId, bind_eq_ok] at hs
  obtain ⟨hi, hload, -⟩ := hs
  have hlen := (List.getElem?_eq_some_iff.mp ((load_ofPacket hp).mp hload)).1
  have := CmdHeader.read_eq_none.mp hr
  simp at this
  omega

end Pc2Drc
