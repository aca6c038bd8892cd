import Pc2Drc.Lib.Buffer

/-! The `vstrm` datagram: the packet buffer with its setters, and the protocol header and extended
header as they are documented. -/
namespace Pc2Drc
open Lib

abbrev kVstrmHeaderSize : ℕ := 16

abbrev kMaxVstrmPayloadSize : ℕ := 1694

inductive VideoFrameRate
  | k59_94Hz
  | k50Hz
  | k29_97Hz
  | k25Hz
  | kUnknown
  deriving DecidableEq, Repr

/-- The cast to a byte. -/
def VideoFrameRate.toByte : VideoFrameRate → UInt8
  | .k59_94Hz => 0
  | .k50Hz => 1
  | .k29_97Hz => 2
  | .k25Hz => 3
  | .kUnknown => 0xFF

structure VstrmPacket where
  pkt : Buffer (kVstrmHeaderSize + kMaxVstrmPayloadSize)
  deriving DecidableEq

namespace VstrmPacket

def get (p : VstrmPacket) (i : ℕ) : UInt8 := p.pkt.get i

def set (p : VstrmPacket) (i : ℕ) (v : UInt8) : VstrmPacket := ⟨p.pkt.set i v⟩

def resetPacket : VstrmPacket :=
  let p : VstrmPacket := ⟨Buffer.zeros _⟩
  ((((p.set 0 0xF0).set 2 0x08).set 8 0x83).set 9 0x85).set 10 6

def payloadSize (p : VstrmPacket) : ℕ := ((p.get 2 &&& 7).toNat <<< 8) ||| (p.get 3).toNat

def setSeqId (p : VstrmPacket) (seqid : UInt16) : VstrmPacket :=
  (p.set 0 (insertBits (p.get 0) (seqid >>> 8).toUInt8 0 2)).set 1 (seqid &&& 0xFF).toUInt8

def setTimestamp (p : VstrmPacket) (ts : UInt32) : VstrmPacket :=
  (((p.set 4 ((ts >>> 24) &&& 0xFF).toUInt8).set 5 ((ts >>> 16) &&& 0xFF).toUInt8).set 6
    ((ts >>> 8) &&& 0xFF).toUInt8).set 7 (ts &&& 0xFF).toUInt8

def setPayload (p : VstrmPacket) (payload : List UInt8) : Except Fault VstrmPacket :=
  if payload.length ≤ kMaxVstrmPayloadSize then do
    let p : VstrmPacket := ⟨← p.pkt.memcpy 16 payload⟩
    let p := p.set 2 (insertBits (p.get 2) (payload.length >>> 8).toUInt8 0 3)
    return p.set 3 (payload.length &&& 0xFF).toUInt8
  else .error .assertion

/-- The setters of the one-bit flags. -/
def setFlag (p : VstrmPacket) (idx pos : ℕ) (flag : Bool) : VstrmPacket :=
  p.set idx (insertBits (p.get idx) (if flag then 1 else 0) pos (pos + 1))

def setInitFlag (p : VstrmPacket) (flag : Bool) : VstrmPacket := p.setFlag 2 7 flag

def setFrameBeginFlag (p : VstrmPacket) (flag : Bool) : VstrmPacket := p.setFlag 2 6 flag

def setChunkEndFlag (p : VstrmPacket) (flag : Bool) : VstrmPacket := p.setFlag 2 5 flag

def setFrameEndFlag (p : VstrmPacket) (flag : Bool) : VstrmPacket := p.setFlag 2 4 flag

/-- The loop of `GetExtOption` from index `i`, with `n` of its eight rounds left. `some` is a true
result, with the byte written through `val` when the caller gave that pointer. -/
def getExtOptionFrom (p : VstrmPacket) (opt : UInt8) (val : Bool) (i : ℕ) :
    ℕ → Option (Option UInt8)
  | 0 => none
  | n + 1 =>
    if p.get (8 + i) = opt then
      if val then
        if i = 7 then none else some (some (p.get (8 + i + 1)))
      else some none
    else p.getExtOptionFrom opt val (i + 1) n

def getExtOption (p : VstrmPacket) (opt : UInt8) (val : Bool) : Option (Option UInt8) :=
  p.getExtOptionFrom opt val 0 8

def idrFlag (p : VstrmPacket) : Bool := (p.getExtOption 0x80 false).isSome

/-- The byte that is cast to the enumeration. -/
def frameRate (p : VstrmPacket) : UInt8 :=
  match p.getExtOption 0x82 true with
  | some (some framerate) => framerate
  | _ => VideoFrameRate.kUnknown.toByte

def setExtVal (p : VstrmPacket) (i : ℕ) : Option UInt8 → VstrmPacket
  | none => p
  | some v => p.set (8 + i + 1) v

/-- The loop of `SetExtOption` from index `i`, with `n` of its eight rounds left. The assertion
behind the loop is a disjunction with a string literal, so it never fails. -/
def setExtOptionFrom (p : VstrmPacket) (opt : UInt8) (val : Option UInt8) (i : ℕ) :
    ℕ → VstrmPacket
  | 0 => (p.set (8 + i) opt).setExtVal i val
  | n + 1 =>
    if p.get (8 + i) = 0 then (p.set (8 + i) opt).setExtVal i val
    else if p.get (8 + i) = opt then p.setExtVal i val
    else p.setExtOptionFrom opt val (i + 1) n

def setExtOption (p : VstrmPacket) (opt : UInt8) (val : Option UInt8) : VstrmPacket :=
  p.setExtOptionFrom opt val 0 8

/-- The inner loop of `ClearExtOption`; it moves the outer index along. -/
def clearShift (p : VstrmPacket) (i j : ℕ) : ℕ → VstrmPacket × ℕ
  | 0 => (p, i)
  | n + 1 =>
    if j < 8 then ((p.set (8 + i) (p.get (8 + j))).set (8 + j) 0).clearShift (i + 1) (j + 1) n
    else (p, i)

/-- The outer loop from index `i`. Each round moves the index on, so eight of them are enough. -/
def clearExtOptionFrom (p : VstrmPacket) (opt : UInt8) (hasVal : Bool) (i : ℕ) :
    ℕ → VstrmPacket
  | 0 => p
  | n + 1 =>
    if i < 8 then
      if p.get (8 + i) = opt then
        let (q, i') := p.clearShift i (i + 1 + hasVal.toNat) 8
        q.clearExtOptionFrom opt hasVal (i' + 1) n
      else p.clearExtOptionFrom opt hasVal (i + 1) n
    else p

def clearExtOption (p : VstrmPacket) (opt : UInt8) (hasVal : Bool) : VstrmPacket :=
  p.clearExtOptionFrom opt hasVal 0 8

def setIdrFlag (p : VstrmPacket) (flag : Bool) : VstrmPacket :=
  if flag then p.setExtOption 0x80 none else p.clearExtOption 0x80 false

def setFrameRate (p : VstrmPacket) (framerate : VideoFrameRate) : VstrmPacket :=
  if framerate = .kUnknown then p.clearExtOption 0x82 true
  else p.setExtOption 0x82 (some framerate.toByte)

/-- The datagram `[GetBytes(), GetBytes() + GetSize())` handed to the socket. -/
def getBytes (p : VstrmPacket) : List UInt8 :=
  p.pkt.bytes.take (kVstrmHeaderSize + p.payloadSize)

end VstrmPacket

/-- The documented options of the extended header. -/
inductive ExtOption
  | idr
  | unimplemented (arg : UInt8)
  | frameRate (arg : UInt8)
  | forceDecoding
  | unsetForceFlag
  | numMbRowsInChunk (arg : UInt8)
  | unknown (opt : UInt8)
  deriving DecidableEq, Repr

/-- An option that takes an argument needs one more byte of the extended header. -/
def ExtOption.read (opt : UInt8) (arg : Option UInt8) : Option ExtOption :=
  if opt = 0x80 then some .idr
  else if opt = 0x81 then arg.map .unimplemented
  else if opt = 0x82 then arg.map .frameRate
  else if opt = 0x83 then some .forceDecoding
  else if opt = 0x84 then some .unsetForceFlag
  else if opt = 0x85 then arg.map .numMbRowsInChunk
  else some (.unknown opt)

def ExtOption.hasArg (opt : UInt8) : Bool := opt = 0x81 ∨ opt = 0x82 ∨ opt = 0x85

/-- The documented linear reading: up to the end of the extended header or a `0x00` byte. -/
def readExtHeader : List UInt8 → List ExtOption
  | [] => []
  | [opt] => if opt = 0 then [] else (ExtOption.read opt none).toList
  | opt :: arg :: rest =>
    if opt = 0 then []
    else if ExtOption.hasArg opt then (ExtOption.read opt (some arg)).toList ++ readExtHeader rest
    else (ExtOption.read opt none).toList ++ readExtHeader (arg :: rest)

/-- A datagram read with the documented layout. -/
structure VstrmDatagram where
  magic : ℕ
  packetType : ℕ
  seqId : ℕ
  init : Bool
  frameBegin : Bool
  chunkEnd : Bool
  frameEnd : Bool
  timestamp : Option ℕ
  extHeader : List ExtOption
  payload : List UInt8
  deriving DecidableEq, Repr

/-- A big-endian 32-bit word. -/
def be32 (b0 b1 b2 b3 : UInt8) : ℕ :=
  b0.toNat * 2 ^ 24 + b1.toNat * 2 ^ 16 + b2.toNat * 2 ^ 8 + b3.toNat

/-- What follows the first word and the timestamp: eight bytes of options and the payload. -/
def VstrmDatagram.readBody (w : ℕ) (timestamp : Option ℕ) (body : List UInt8) :
    Option VstrmDatagram :=
  if body.length = 8 + w % 2 ^ 11 then
    some {
      magic := w / 2 ^ 28
      packetType := w / 2 ^ 26 % 2 ^ 2
      seqId := w / 2 ^ 16 % 2 ^ 10
      init := w / 2 ^ 15 % 2 = 1
      frameBegin := w / 2 ^ 14 % 2 = 1
      chunkEnd := w / 2 ^ 13 % 2 = 1
      frameEnd := w / 2 ^ 12 % 2 = 1
      timestamp := timestamp
      extHeader := readExtHeader (body.take 8)
      payload := body.drop 8 }
  else none

/-- The fields of the first word from its highest bit down; the timestamp is there if bit 11 says
so. -/
def VstrmDatagram.read : List UInt8 → Option VstrmDatagram
  | b0 :: b1 :: b2 :: b3 :: rest =>
    let w := be32 b0 b1 b2 b3
    if w / 2 ^ 11 % 2 = 1 then
      match rest with
      | t0 :: t1 :: t2 :: t3 :: body => readBody w (some (be32 t0 t1 t2 t3)) body
      | _ => none
    else readBody w none rest
  | _ => none

/-- The options a packet of a frame carries. -/
def extOptions (idr : Bool) (fr : VideoFrameRate) : List ExtOption :=
  let rate : List ExtOption := if fr = .kUnknown then [] else [.frameRate fr.toByte]
  let idr : List ExtOption := if idr then [.idr] else []
  .forceDecoding :: .numMbRowsInChunk 6 :: idr ++ rate

namespace VstrmPacket

variable {p : VstrmPacket} {b0 b1 b2 b3 t0 t1 t2 t3 : UInt8} {body payload : List UInt8}

theorem bytes_reset : resetPacket.pkt.bytes =
    [0xF0, 0, 0x08, 0, 0, 0, 0, 0, 0x83, 0x85, 6, 0, 0, 0, 0, 0] ++
      List.replicate kMaxVstrmPayloadSize 0 := by
  have h := List.replicate_append_replicate (n := kVstrmHeaderSize) (m := kMaxVstrmPayloadSize)
    (a := (0 : UInt8))
  rw [resetPacket]
  simp only [set, Buffer.zeros, Buffer.bytes_set, ← h]
  rfl

/-- The extended header the two option setters leave. -/
def extBytes (idr : Bool) (fr : VideoFrameRate) : List UInt8 :=
  let rate := if fr = .kUnknown then [] else [0x82, fr.toByte]
  ([0x83, 0x85, 6] ++ (if idr then [0x80] else []) ++ rate ++ List.replicate 8 0).take 8

theorem bytes_options (idr : Bool) (fr : VideoFrameRate)
    (h : p.pkt.bytes = [b0, b1, b2, b3, t0, t1, t2, t3, 0x83, 0x85, 6, 0, 0, 0, 0, 0] ++ body) :
    ((p.setIdrFlag idr).setFrameRate fr).pkt.bytes =
      [b0, b1, b2, b3, t0, t1, t2, t3] ++ extBytes idr fr ++ body := by
  cases idr <;> cases fr <;>
    simp [setIdrFlag, setFrameRate, clearExtOption, clearExtOptionFrom, setExtOption,
      setExtOptionFrom, setExtVal, get, set, Buffer.get, h, extBytes]

/-- The byte of the flags and of the size's high bits. -/
def flagsByte (n : ℕ) (init fb ce fe : Bool) : UInt8 :=
  let bit (v : UInt8) (b : Bool) (pos : ℕ) := insertBits v (if b then 1 else 0) pos (pos + 1)
  bit (bit (bit (bit (insertBits 0x08 (n >>> 8).toUInt8 0 3) init 7) fb 6) ce 5) fe 4

theorem toNat_flagsByte {n : ℕ} (h : n < 2048) (init fb ce fe : Bool) :
    (flagsByte n init fb ce fe).toNat =
      init.toNat * 128 + fb.toNat * 64 + ce.toNat * 32 + fe.toNat * 16 + 8 + n / 256 := by
  have hall : ∀ s < 8, ∀ init fb ce fe : Bool, (flagsByte (s <<< 8) init fb ce fe).toNat =
      init.toNat * 128 + fb.toNat * 64 + ce.toNat * 32 + fe.toNat * 16 + 8 + s := by decide
  have hs : (n / 256) <<< 8 >>> 8 = n >>> 8 := by
    simp [Nat.shiftRight_eq_div_pow, Nat.shiftLeft_eq]
  rw [← hall (n / 256) (by omega), flagsByte, flagsByte, hs]

theorem length_extBytes (idr : Bool) (fr : VideoFrameRate) : (extBytes idr fr).length = 8 := by
  cases idr <;> cases fr <;> rfl

theorem toNat_seqByte {seqid : UInt16} (h : seqid.toNat < 1024) :
    (insertBits 0xF0 (seqid >>> 8).toUInt8 0 2).toNat = 0xF0 + seqid.toNat / 256 := by
  have hall : ∀ s < 4, (insertBits 0xF0 s.toUInt8 0 2).toNat = 0xF0 + s := by decide
  have hs : (seqid >>> 8).toUInt8 = (seqid.toNat / 256).toUInt8 := by
    apply UInt8.toNat_inj.mp
    simp [Nat.shiftRight_eq_div_pow]
  rw [hs, hall _ (by omega)]

theorem setPayload_ok (h : payload.length ≤ kMaxVstrmPayloadSize) :
    ∃ q, p.setPayload payload = .ok q := by
  obtain ⟨b, hb⟩ := Buffer.memcpy_ok (b := p.pkt) (Nat.add_le_add_left h kVstrmHeaderSize)
  rw [setPayload, if_pos h, hb]
  exact ⟨_, rfl⟩

/-- The bytes of a packet all of whose setters ran on a fresh one. -/
theorem bytes_setters {q : VstrmPacket} (seqid : UInt16) (ts : UInt32) (init fb ce fe idr : Bool)
    (fr : VideoFrameRate) (hq : (resetPacket.setSeqId seqid).setPayload payload = .ok q) :
    (((((((q.setTimestamp ts).setInitFlag init).setFrameBeginFlag fb).setChunkEndFlag
      ce).setFrameEndFlag fe).setIdrFlag idr).setFrameRate fr).pkt.bytes =
    [insertBits 0xF0 (seqid >>> 8).toUInt8 0 2, (seqid &&& 0xFF).toUInt8,
      flagsByte payload.length init fb ce fe, (payload.length &&& 0xFF).toUInt8,
      ((ts >>> 24) &&& 0xFF).toUInt8, ((ts >>> 16) &&& 0xFF).toUInt8,
      ((ts >>> 8) &&& 0xFF).toUInt8, (ts &&& 0xFF).toUInt8] ++ extBytes idr fr ++
      (payload ++ List.replicate (kMaxVstrmPayloadSize - payload.length) 0) := by
  unfold setPayload at hq
  split at hq
  · rename_i hlen
    obtain ⟨buf, hbuf, hq⟩ := bind_eq_ok.mp hq
    cases hq
    obtain ⟨-, hbytes⟩ := Buffer.memcpy_eq_ok.mp hbuf
    have hb : buf.bytes = [insertBits 0xF0 (seqid >>> 8).toUInt8 0 2, (seqid &&& 0xFF).toUInt8,
        0x08, 0, 0, 0, 0, 0, 0x83, 0x85, 6, 0, 0, 0, 0, 0] ++
        (payload ++ List.replicate (kMaxVstrmPayloadSize - payload.length) 0) := by
      rw [hbytes]
      simp [setSeqId, set, get, Buffer.get, bytes_reset, blit, Nat.add_comm 16]
    refine bytes_options idr fr ?_
    simp [setTimestamp, setInitFlag, setFrameBeginFlag, setChunkEndFlag, setFrameEndFlag, setFlag,
      set, get, Buffer.get, hb, flagsByte]
  · cases hq

theorem readExtHeader_extBytes (idr : Bool) (fr : VideoFrameRate) :
    readExtHeader (extBytes idr fr) = extOptions idr fr := by
  cases idr <;> cases fr <;> rfl

theorem be32_timestamp (ts : UInt32) :
    be32 ((ts >>> 24) &&& 0xFF).toUInt8 ((ts >>> 16) &&& 0xFF).toUInt8
      ((ts >>> 8) &&& 0xFF).toUInt8 (ts &&& 0xFF).toUInt8 = ts.toNat := by
  have := ts.toNat_lt
  simp [be32, and_byte_mask, Nat.shiftRight_eq_div_pow]
  omega

/-- A size of at most eleven bits is read back from its two bytes. -/
theorem payloadSize_flagsByte {n : ℕ} (h : n < 2048) (init fb ce fe : Bool) :
    ((flagsByte n init fb ce fe &&& 7).toNat <<< 8) ||| (n &&& 0xFF).toUInt8.toNat = n := by
  have h7 : ((flagsByte n init fb ce fe).toNat &&& 7) = (flagsByte n init fb ce fe).toNat % 8 :=
    Nat.and_two_pow_sub_one_eq_mod _ 3
  have hlo : n % 256 < 2 ^ 8 := by omega
  rw [UInt8.toNat_and, show (7 : UInt8).toNat = 7 from rfl, h7, toNat_flagsByte h, and_byte_mask]
  rw [show (n % 256).toUInt8.toNat = n % 256 by simp, ← Nat.shiftLeft_add_eq_or_of_lt hlo,
    Nat.shiftLeft_eq]
  omega

/-- The first word of a packet, field by field. -/
theorem be32_header {seqid : UInt16} {n : ℕ} (hseq : seqid.toNat < 1024) (hn : n < 2048)
    (init fb ce fe : Bool) :
    be32 (insertBits 0xF0 (seqid >>> 8).toUInt8 0 2) (seqid &&& 0xFF).toUInt8
      (flagsByte n init fb ce fe) (n &&& 0xFF).toUInt8 =
    0xF * 2 ^ 28 + seqid.toNat * 2 ^ 16 + init.toNat * 2 ^ 15 + fb.toNat * 2 ^ 14 +
      ce.toNat * 2 ^ 13 + fe.toNat * 2 ^ 12 + 2 ^ 11 + n := by
  have hlo : (seqid &&& 0xFF).toUInt8.toNat = seqid.toNat % 256 := by simp [and_byte_mask]
  have hsize : (n &&& 0xFF).toUInt8.toNat = n % 256 := by simp [and_byte_mask]
  rw [be32, toNat_seqByte hseq, toNat_flagsByte hn, hlo, hsize]
  omega

/-- The documented fields of that word. -/
theorem readBody_header {s n : ℕ} (hs : s < 1024) (hn : n < 2048) (init fb ce fe : Bool)
    {ext : List UInt8} (hext : ext.length = 8) {t : Option ℕ} (hlen : payload.length = n) :
    VstrmDatagram.readBody (0xF * 2 ^ 28 + s * 2 ^ 16 + init.toNat * 2 ^ 15 + fb.toNat * 2 ^ 14 +
      ce.toNat * 2 ^ 13 + fe.toNat * 2 ^ 12 + 2 ^ 11 + n) t (ext ++ payload) =
    some {
      magic := 0xF, packetType := 0, seqId := s, init := init, frameBegin := fb, chunkEnd := ce,
      frameEnd := fe, timestamp := t, extHeader := readExtHeader ext, payload := payload } := by
  have hi := init.toNat_le
  have hf := fb.toNat_le
  have hc := ce.toNat_le
  have he := fe.toNat_le
  have hbit : ∀ (b : Bool) (m : ℕ), m = b.toNat → decide (m = 1) = b := by
    rintro b m rfl
    cases b <;> rfl
  have hbody : (ext ++ payload).length = 8 + n := by rw [List.length_append, hext, hlen]
  rw [VstrmDatagram.readBody, if_pos (by rw [hbody]; omega), List.take_left' hext,
    List.drop_left' hext, hbit init, hbit fb, hbit ce, hbit fe]
  · congr 2 <;> omega
  all_goals omega

/-- The documented layout reads back what the setters wrote. -/
theorem read_setters {q : VstrmPacket} {seqid : UInt16} (ts : UInt32)
    (init fb ce fe idr : Bool) (fr : VideoFrameRate) (hseq : seqid.toNat < 1024)
    (hlen : payload.length ≤ kMaxVstrmPayloadSize)
    (hq : (resetPacket.setSeqId seqid).setPayload payload = .ok q) :
    VstrmDatagram.read (((((((q.setTimestamp ts).setInitFlag init).setFrameBeginFlag
      fb).setChunkEndFlag ce).setFrameEndFlag fe).setIdrFlag idr).setFrameRate fr).getBytes =
    some {
      magic := 0xF, packetType := 0, seqId := seqid.toNat, init := init, frameBegin := fb,
      chunkEnd := ce, frameEnd := fe, timestamp := some ts.toNat,
      extHeader := extOptions idr fr, payload := payload } := by
  have hbytes := bytes_setters seqid ts init fb ce fe idr fr hq
  generalize (((((((q.setTimestamp ts).setInitFlag init).setFrameBeginFlag fb).setChunkEndFlag
    ce).setFrameEndFlag fe).setIdrFlag idr).setFrameRate fr) = p at hbytes ⊢
  have hn : payload.length < 2048 := Nat.lt_of_le_of_lt hlen (by decide)
  have hsize : p.payloadSize = payload.length := by
    rw [← payloadSize_flagsByte hn init fb ce fe]
    simp [payloadSize, get, Buffer.get, hbytes]
  have hget : p.getBytes = [insertBits 0xF0 (seqid >>> 8).toUInt8 0 2, (seqid &&& 0xFF).toUInt8,
      flagsByte payload.length init fb ce fe, (payload.length &&& 0xFF).toUInt8,
      ((ts >>> 24) &&& 0xFF).toUInt8, ((ts >>> 16) &&& 0xFF).toUInt8,
      ((ts >>> 8) &&& 0xFF).toUInt8, (ts &&& 0xFF).toUInt8] ++ (extBytes idr fr ++ payload) := by
    rw [getBytes, hsize, hbytes, ← List.append_assoc, List.take_left']
    · rw [List.append_assoc]
    · simp [length_extBytes, kVstrmHeaderSize]
      omega
  have hw := be32_header hseq hn init fb ce fe
  have hbit : (0xF * 2 ^ 28 + seqid.toNat * 2 ^ 16 + init.toNat * 2 ^ 15 + fb.toNat * 2 ^ 14 +
      ce.toNat * 2 ^ 13 + fe.toNat * 2 ^ 12 + 2 ^ 11 + payload.length) / 2 ^ 11 % 2 = 1 := by
    omega
  rw [hget]
  simp only [VstrmDatagram.read, List.cons_append, List.nil_append, hw, hbit, if_true,
    be32_timestamp]
  rw [readBody_header hseq hn init fb ce fe (length_extBytes idr fr) rfl, readExtHeader_extBytes]

end VstrmPacket

end Pc2Drc
