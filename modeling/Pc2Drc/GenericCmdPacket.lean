import Pc2Drc.Lib.Buffer
import Pc2Drc.Lib.Run

/-! The generic command: its packet with setters and getters, and its documented layout. -/
namespace Pc2Drc
open Lib

abbrev kGenericCmdHeaderSize : ℕ := 12

abbrev kMaxGenericCmdPayloadSize : ℕ := 1388

structure GenericCmdPacket where
  pkt : Buffer (kGenericCmdHeaderSize + kMaxGenericCmdPayloadSize)
  deriving DecidableEq

namespace GenericCmdPacket

def get (p : GenericCmdPacket) (i : ℕ) : UInt8 := p.pkt.get i

def set (p : GenericCmdPacket) (i : ℕ) (v : UInt8) : GenericCmdPacket := ⟨p.pkt.set i v⟩

def transactionId (p : GenericCmdPacket) : UInt16 :=
  ((p.get 2).toUInt16 <<< 8) ||| (p.get 3 >>> 4).toUInt16

def finalFragment (p : GenericCmdPacket) : Bool := (p.get 3 &&& 0x8) ≠ 0

def fragmentId (p : GenericCmdPacket) : UInt16 :=
  ((p.get 3 &&& 0x7).toUInt16 <<< 8) ||| (p.get 4).toUInt16

def flags (p : GenericCmdPacket) : UInt8 := p.get 5

def serviceId (p : GenericCmdPacket) : UInt8 := p.get 6

def methodId (p : GenericCmdPacket) : UInt8 := p.get 7

def errorCode (p : GenericCmdPacket) : UInt16 := u16OfBytes (p.get 8) (p.get 9)

def payloadSize (p : GenericCmdPacket) : ℕ := (u16OfBytes (p.get 10) (p.get 11)).toNat

/-- The bytes `[Payload(), Payload() + PayloadSize())`. -/
def payload (p : GenericCmdPacket) : List UInt8 :=
  (p.pkt.bytes.drop kGenericCmdHeaderSize).take p.payloadSize

/-- The bytes `[GetBytes(), GetBytes() + GetSize())`. -/
def getBytes (p : GenericCmdPacket) : List UInt8 :=
  p.pkt.bytes.take (kGenericCmdHeaderSize + p.payloadSize)

def setTransactionId (p : GenericCmdPacket) (tid : UInt16) : Except Fault GenericCmdPacket :=
  if tid < 0x400 then
    let p := p.set 2 (tid >>> 8).toUInt8
    .ok (p.set 3 ((p.get 3 &&& (0xF : UInt8)) ||| ((tid <<< 4) &&& 0xF0).toUInt8))
  else .error .assertion

def setFinalFragment (p : GenericCmdPacket) (v : Bool) : GenericCmdPacket :=
  p.set 3 (if v then p.get 3 ||| 0x08 else p.get 3 &&& ~~~0x08)

def setFragmentId (p : GenericCmdPacket) (fid : UInt16) : Except Fault GenericCmdPacket :=
  if fid < 0x800 then
    let p := p.set 3 ((p.get 3 &&& (0xF0 : UInt8)) ||| (fid >>> 8).toUInt8)
    .ok (p.set 4 (fid &&& 0xFF).toUInt8)
  else .error .assertion

def setFlags (p : GenericCmdPacket) (flags : UInt8) : GenericCmdPacket := p.set 5 flags

def setServiceId (p : GenericCmdPacket) (sid : UInt8) : GenericCmdPacket := p.set 6 sid

def setMethodId (p : GenericCmdPacket) (mid : UInt8) : GenericCmdPacket := p.set 7 mid

def setErrorCode (p : GenericCmdPacket) (errorCode : UInt16) : GenericCmdPacket :=
  (p.set 8 (hiByte errorCode)).set 9 (loByte errorCode)

def setPayload (p : GenericCmdPacket) (payload : List UInt8) : Except Fault GenericCmdPacket :=
  if payload.length ≤ kMaxGenericCmdPayloadSize then do
    let p : GenericCmdPacket := ⟨← p.pkt.memcpy kGenericCmdHeaderSize payload⟩
    return (p.set 10 ((payload.length >>> 8) &&& 0xFF).toUInt8).set 11
      (payload.length &&& 0xFF).toUInt8
  else .error .assertion

/-- The service and the method are invalid until they are set. -/
def resetPacket : GenericCmdPacket :=
  let p : GenericCmdPacket := ⟨Buffer.zeros _⟩
  ((((p.set 0 0x7E).set 1 0x01).setFinalFragment true).setServiceId 0xFF).setMethodId 0xFF

end GenericCmdPacket

inductive GenericCall
  | setTransactionId (tid : UInt16)
  | setFinalFragment (v : Bool)
  | setFragmentId (fid : UInt16)
  | setFlags (flags : UInt8)
  | setServiceId (sid : UInt8)
  | setMethodId (mid : UInt8)
  | setErrorCode (errorCode : UInt16)
  | setPayload (payload : List UInt8)

/-- What the setters assert of their arguments. -/
def GenericCall.Allowed : GenericCall → Prop
  | .setTransactionId tid => tid.toNat < 0x400
  | .setFragmentId fid => fid.toNat < 0x800
  | .setPayload payload => payload.length ≤ kMaxGenericCmdPayloadSize
  | _ => True

def GenericCall.apply (p : GenericCmdPacket) : GenericCall → Except Fault GenericCmdPacket
  | .setTransactionId tid => p.setTransactionId tid
  | .setFinalFragment v => .ok (p.setFinalFragment v)
  | .setFragmentId fid => p.setFragmentId fid
  | .setFlags flags => .ok (p.setFlags flags)
  | .setServiceId sid => .ok (p.setServiceId sid)
  | .setMethodId mid => .ok (p.setMethodId mid)
  | .setErrorCode errorCode => .ok (p.setErrorCode errorCode)
  | .setPayload payload => p.setPayload payload

def genericAfter (calls : List GenericCall) : Except Fault GenericCmdPacket :=
  calls.foldlM GenericCall.apply .resetPacket

/-- What the setters are for: a record of independent fields. -/
structure GenericFields where
  transactionId : UInt16
  finalFragment : Bool
  fragmentId : UInt16
  flags : UInt8
  serviceId : UInt8
  methodId : UInt8
  errorCode : UInt16
  payload : List UInt8
  deriving DecidableEq

def GenericFields.reset : GenericFields :=
  { transactionId := 0, finalFragment := true, fragmentId := 0, flags := 0, serviceId := 0xFF,
    methodId := 0xFF, errorCode := 0, payload := [] }

def GenericCall.record (f : GenericFields) : GenericCall → GenericFields
  | .setTransactionId tid => { f with transactionId := tid }
  | .setFinalFragment v => { f with finalFragment := v }
  | .setFragmentId fid => { f with fragmentId := fid }
  | .setFlags flags => { f with flags := flags }
  | .setServiceId sid => { f with serviceId := sid }
  | .setMethodId mid => { f with methodId := mid }
  | .setErrorCode errorCode => { f with errorCode := errorCode }
  | .setPayload payload => { f with payload := payload }

/-- The arguments of the last calls, or the values of a fresh packet. -/
def genericFields (calls : List GenericCall) : GenericFields :=
  calls.foldl GenericCall.record .reset

/-- The documented generic command. -/
structure GenericCommand where
  magic : ℕ
  version : ℕ
  transactionId : ℕ
  fragmentId : ℕ
  flags : UInt8
  serviceId : UInt8
  methodId : UInt8
  errorCode : ℕ
  payload : List UInt8
  deriving DecidableEq

/-- The two 12-bit fields share the fourth byte, the first of them has its high half. -/
def GenericCommand.read : List UInt8 → Option GenericCommand
  | b0 :: b1 :: b2 :: b3 :: b4 :: b5 :: b6 :: b7 :: b8 :: b9 :: b10 :: b11 :: payload =>
    if payload.length = b10.toNat * 2 ^ 8 + b11.toNat then
      some {
        magic := b0.toNat
        version := b1.toNat
        transactionId := b2.toNat * 2 ^ 4 + b3.toNat / 2 ^ 4
        fragmentId := b3.toNat % 2 ^ 4 * 2 ^ 8 + b4.toNat
        flags := b5
        serviceId := b6
        methodId := b7
        errorCode := b8.toNat * 2 ^ 8 + b9.toNat
        payload := payload }
    else none
  | _ => none

/-- The command that carries the fields; the mark of the final fragment is the top bit of the
fragment id. -/
def GenericFields.command (f : GenericFields) : GenericCommand where
  magic := 0x7E
  version := 1
  transactionId := f.transactionId.toNat
  fragmentId := f.finalFragment.toNat * 2 ^ 11 + f.fragmentId.toNat
  flags := f.flags
  serviceId := f.serviceId
  methodId := f.methodId
  errorCode := f.errorCode.toNat
  payload := f.payload

/-- The fields as the getters give them. -/
def GenericCmdPacket.fields (p : GenericCmdPacket) : GenericFields where
  transactionId := p.transactionId
  finalFragment := p.finalFragment
  fragmentId := p.fragmentId
  flags := p.flags
  serviceId := p.serviceId
  methodId := p.methodId
  errorCode := p.errorCode
  payload := p.payload

/-- The getters and the documented layout give the fields. -/
def GenericCmdPacket.Carries (p : GenericCmdPacket) (f : GenericFields) : Prop :=
  p.fields = f ∧ GenericCommand.read p.getBytes = some f.command

/-- A fragment id was set after the last call that set the mark of the final fragment. -/
def FragmentIdLast (calls : List GenericCall) : Prop :=
  ∃ pre fid post, calls = pre ++ .setFragmentId fid :: post ∧ ∀ v, .setFinalFragment v ∉ post

/-- The byte that the two 12-bit fields share, as the setters leave it. -/
def headByte (tid : UInt16) (final : Bool) (fid : UInt16) : UInt8 :=
  UInt8.ofNat (tid.toNat % 16 * 16 + final.toNat * 8 + fid.toNat / 256)

section
variable {tid tid' fid fid' : UInt16} {final : Bool}

theorem toNat_headByte (h : fid.toNat < 0x800) :
    (headByte tid final fid).toNat = tid.toNat % 16 * 16 + final.toNat * 8 + fid.toNat / 256 := by
  have hf := final.toNat_le
  rw [headByte, UInt8.toNat_ofNat']
  omega

theorem and_high_mask (n : ℕ) : n &&& 0xF0 = n % 256 / 16 * 16 := by
  have hall : ∀ m < 256, m &&& 0xF0 = m / 16 * 16 := by decide +kernel
  rw [← hall (n % 256) (Nat.mod_lt _ (by decide)), ← and_byte_mask, Nat.and_assoc]
  rfl

theorem tidNibble (tid : UInt16) :
    ((tid <<< 4) &&& 0xF0).toUInt8 = UInt8.ofNat (tid.toNat % 16 * 16) := by
  apply UInt8.toNat_inj.mp
  simp [and_high_mask, Nat.shiftLeft_eq]
  omega

theorem headByte_setTransactionId (tid tid' : UInt16) (final : Bool) (h : fid.toNat < 0x800) :
    (headByte tid final fid &&& (0xF : UInt8)) ||| ((tid' <<< 4) &&& 0xF0).toUInt8 =
      headByte tid' final fid := by
  have hlow : ∀ m < 16, ∀ (b : Bool), ∀ k < 8, UInt8.ofNat (m * 16 + b.toNat * 8 + k) &&& 0xF =
      UInt8.ofNat (b.toNat * 8 + k) := by decide
  have hor : ∀ m < 16, ∀ (b : Bool), ∀ k < 8, UInt8.ofNat (b.toNat * 8 + k) |||
      UInt8.ofNat (m * 16) = UInt8.ofNat (m * 16 + b.toNat * 8 + k) := by decide
  rw [headByte, hlow _ (Nat.mod_lt _ (by decide)) final _ (by omega), tidNibble,
    hor _ (Nat.mod_lt _ (by decide)) final _ (by omega)]
  rfl

theorem headByte_setFinalFragment (h : fid.toNat < 0x800) (v : Bool) :
    (if v then headByte tid final fid ||| 0x08 else headByte tid final fid &&& ~~~0x08) =
      headByte tid v fid := by
  have hall : ∀ m < 16, ∀ (b v : Bool), ∀ k < 8,
      (if v then UInt8.ofNat (m * 16 + b.toNat * 8 + k) ||| 0x08
        else UInt8.ofNat (m * 16 + b.toNat * 8 + k) &&& ~~~0x08) =
      UInt8.ofNat (m * 16 + v.toNat * 8 + k) := by decide
  exact hall _ (Nat.mod_lt _ (by decide)) final v _ (by omega)

/-- The mask keeps the transaction id only: the mark of the final fragment is lost. -/
theorem headByte_setFragmentId (h : fid.toNat < 0x800) (h' : fid'.toNat < 0x800) :
    (headByte tid final fid &&& (0xF0 : UInt8)) ||| (fid' >>> 8).toUInt8 =
      headByte tid false fid' := by
  have hhigh : ∀ m < 16, ∀ (b : Bool), ∀ k < 8, UInt8.ofNat (m * 16 + b.toNat * 8 + k) &&& 0xF0 =
      UInt8.ofNat (m * 16) := by decide
  have hor : ∀ m < 16, ∀ k < 8, UInt8.ofNat (m * 16) ||| UInt8.ofNat k =
      UInt8.ofNat (m * 16 + false.toNat * 8 + k) := by decide
  have hbyte : (fid' >>> 8).toUInt8 = UInt8.ofNat (fid'.toNat / 256) := by
    apply UInt8.toNat_inj.mp
    simp [Nat.shiftRight_eq_div_pow]
  rw [headByte, hhigh _ (Nat.mod_lt _ (by decide)) final _ (by omega), hbyte,
    hor _ (Nat.mod_lt _ (by decide)) _ (by omega)]
  rfl

end

variable {p : GenericCmdPacket} {f : GenericFields} {final : Bool} {calls : List GenericCall}
  {call : GenericCall}

namespace GenericCmdPacket

@[simp]
theorem bytes_set (p : GenericCmdPacket) (i : ℕ) (v : UInt8) :
    (p.set i v).pkt.bytes = p.pkt.bytes.set i v := rfl

@[simp]
theorem get_eq (p : GenericCmdPacket) (i : ℕ) : p.get i = p.pkt.bytes.getD i 0 := rfl

end GenericCmdPacket

/-- The bytes of a packet that holds the fields, but for the mark of the final fragment, which is
`final`. -/
structure GenericCmdPacket.Laid (p : GenericCmdPacket) (f : GenericFields) (final : Bool) :
    Prop where
  bytes : ∃ body, p.pkt.bytes = [0x7E, 1, hiByte f.transactionId,
    headByte f.transactionId final f.fragmentId, loByte f.fragmentId, f.flags, f.serviceId,
    f.methodId, hiByte f.errorCode, loByte f.errorCode, ((f.payload.length >>> 8) &&& 0xFF).toUInt8,
    (f.payload.length &&& 0xFF).toUInt8] ++ (f.payload ++ body)
  fragmentId_lt : f.fragmentId.toNat < 0x800
  payload_le : f.payload.length ≤ kMaxGenericCmdPayloadSize

theorem laid_reset : GenericCmdPacket.resetPacket.Laid .reset true := by
  refine ⟨⟨List.replicate kMaxGenericCmdPayloadSize 0, ?_⟩, by decide, by decide⟩
  have h := List.replicate_append_replicate (n := kGenericCmdHeaderSize)
    (m := kMaxGenericCmdPayloadSize) (a := (0 : UInt8))
  simp only [GenericCmdPacket.resetPacket, GenericCmdPacket.setFinalFragment,
    GenericCmdPacket.setServiceId, GenericCmdPacket.setMethodId, GenericCmdPacket.bytes_set,
    GenericCmdPacket.get_eq, Buffer.zeros, ← h]
  rfl

/-- The mark after one more call: a fragment id takes it away. -/
def GenericCall.finalAfter (final : Bool) : GenericCall → Bool
  | .setFinalFragment v => v
  | .setFragmentId _ => false
  | _ => final

theorem GenericCmdPacket.Laid.apply (h : p.Laid f final) (hc : call.Allowed) :
    ∃ p', call.apply p = .ok p' ∧ p'.Laid (call.record f) (call.finalAfter final) := by
  obtain ⟨⟨body, hp⟩, hfid, hlen⟩ := h
  cases call with
  | setTransactionId tid =>
    have hlt : tid < 0x400 := hc
    refine ⟨_, if_pos hlt, ⟨body, ?_⟩, hfid, hlen⟩
    simpa [hp, GenericCall.record, GenericCall.finalAfter, hiByte] using
      headByte_setTransactionId f.transactionId tid final hfid
  | setFinalFragment v =>
    refine ⟨_, rfl, ⟨body, ?_⟩, hfid, hlen⟩
    simp [GenericCmdPacket.setFinalFragment, hp, headByte_setFinalFragment hfid,
      GenericCall.record, GenericCall.finalAfter]
  | setFragmentId fid =>
    have hlt : fid < 0x800 := hc
    refine ⟨_, if_pos hlt, ⟨body, ?_⟩, hc, hlen⟩
    simp [hp, headByte_setFragmentId hfid hc, GenericCall.record, GenericCall.finalAfter, loByte]
  | setFlags flags =>
    refine ⟨_, rfl, ⟨body, ?_⟩, hfid, hlen⟩
    simp [GenericCmdPacket.setFlags, hp, GenericCall.record, GenericCall.finalAfter]
  | setServiceId sid =>
    refine ⟨_, rfl, ⟨body, ?_⟩, hfid, hlen⟩
    simp [GenericCmdPacket.setServiceId, hp, GenericCall.record, GenericCall.finalAfter]
  | setMethodId mid =>
    refine ⟨_, rfl, ⟨body, ?_⟩, hfid, hlen⟩
    simp [GenericCmdPacket.setMethodId, hp, GenericCall.record, GenericCall.finalAfter]
  | setErrorCode errorCode =>
    refine ⟨_, rfl, ⟨body, ?_⟩, hfid, hlen⟩
    simp [GenericCmdPacket.setErrorCode, hp, GenericCall.record, GenericCall.finalAfter]
  | setPayload payload =>
    have hle : payload.length ≤ kMaxGenericCmdPayloadSize := hc
    obtain ⟨b, hb⟩ := Buffer.memcpy_ok (b := p.pkt) (Nat.add_le_add_left hle kGenericCmdHeaderSize)
    obtain ⟨-, hbytes⟩ := Buffer.memcpy_eq_ok.mp hb
    refine ⟨((⟨b⟩ : GenericCmdPacket).set 10 ((payload.length >>> 8) &&& 0xFF).toUInt8).set 11
      (payload.length &&& 0xFF).toUInt8, ?_, ⟨(f.payload ++ body).drop payload.length, ?_⟩, hfid,
      hle⟩
    · change p.setPayload payload = _
      rw [GenericCmdPacket.setPayload, if_pos hle, hb]
      rfl
    · simp [hbytes, hp, blit, GenericCall.record, GenericCall.finalAfter, Nat.add_comm 12]

theorem toNat_genericSize {n : ℕ} (h : n ≤ kMaxGenericCmdPayloadSize) :
    ((n >>> 8) &&& 0xFF).toUInt8.toNat * 2 ^ 8 + (n &&& 0xFF).toUInt8.toNat = n := by
  rw [toUInt8_and_byte_mask (n >>> 8)]
  exact toNat_sizeBytes (lt_of_le_of_lt h (by decide))

namespace GenericCmdPacket

theorem Laid.payloadSize (h : p.Laid f final) : p.payloadSize = f.payload.length := by
  obtain ⟨⟨body, hp⟩, -, hlen⟩ := h
  rw [GenericCmdPacket.payloadSize, toNat_u16OfBytes]
  simpa [hp] using toNat_genericSize hlen

theorem Laid.transactionId (h : p.Laid f final) :
    p.transactionId.toNat = f.transactionId.toNat / 256 * 256 + f.transactionId.toNat % 16 := by
  obtain ⟨⟨body, hp⟩, hfid, -⟩ := h
  have hf := final.toNat_le
  have hhead : (headByte f.transactionId final f.fragmentId >>> 4).toNat =
      f.transactionId.toNat % 16 := by
    rw [UInt8.toNat_shiftRight, toNat_headByte hfid]
    simp [Nat.shiftRight_eq_div_pow]
    omega
  have heq : p.transactionId = u16OfBytes (hiByte f.transactionId)
      (headByte f.transactionId final f.fragmentId >>> 4) := by
    simp [GenericCmdPacket.transactionId, u16OfBytes, hp]
  rw [heq, toNat_u16OfBytes, hhead, toNat_hiByte]

theorem Laid.fragmentId (h : p.Laid f final) : p.fragmentId = f.fragmentId := by
  obtain ⟨⟨body, hp⟩, hfid, -⟩ := h
  have hf := final.toNat_le
  have hhead : (headByte f.transactionId final f.fragmentId &&& 7).toNat =
      f.fragmentId.toNat / 256 := by
    have hmask : ∀ n, n &&& 7 = n % 8 := fun n => Nat.and_two_pow_sub_one_eq_mod n 3
    rw [UInt8.toNat_and, toNat_headByte hfid]
    change _ &&& 7 = _
    rw [hmask]
    omega
  have heq : p.fragmentId = u16OfBytes (headByte f.transactionId final f.fragmentId &&& 7)
      (loByte f.fragmentId) := by
    simp [GenericCmdPacket.fragmentId, u16OfBytes, hp]
  apply UInt16.toNat_inj.mp
  rw [heq, toNat_u16OfBytes, hhead, toNat_loByte]
  omega

theorem Laid.finalFragment (h : p.Laid f final) : p.finalFragment = final := by
  obtain ⟨⟨body, hp⟩, hfid, -⟩ := h
  have hall : ∀ m < 16, ∀ (b : Bool), ∀ k < 8,
      decide (UInt8.ofNat (m * 16 + b.toNat * 8 + k) &&& 8 ≠ 0) = b := by decide
  have hbit := hall _ (Nat.mod_lt f.transactionId.toNat (by decide)) final
    (f.fragmentId.toNat / 256) (by omega)
  have heq : p.finalFragment = decide (headByte f.transactionId final f.fragmentId &&& 8 ≠ 0) := by
    simp [GenericCmdPacket.finalFragment, hp]
  rw [heq]
  exact hbit

/-- Everything but the transaction id and the mark of the final fragment is read back. -/
theorem Laid.fields (h : p.Laid f final) : p.fields =
    { f with transactionId := p.transactionId, finalFragment := final } := by
  have hsize := h.payloadSize
  have hfinal := h.finalFragment
  have hfragment := h.fragmentId
  obtain ⟨⟨body, hp⟩, -, -⟩ := h
  unfold GenericCmdPacket.fields GenericCmdPacket.payload
  rw [hsize, hfinal, hfragment]
  simp [GenericCmdPacket.flags, GenericCmdPacket.serviceId, GenericCmdPacket.methodId,
    GenericCmdPacket.errorCode, hp]

theorem Laid.read (h : p.Laid f final) : GenericCommand.read p.getBytes = some
    { f.command with
      transactionId := f.transactionId.toNat / 256 * 16 + f.transactionId.toNat % 16
      fragmentId := final.toNat * 2 ^ 11 + f.fragmentId.toNat } := by
  have hsize := h.payloadSize
  obtain ⟨⟨body, hp⟩, hfid, hlen⟩ := h
  have hf := final.toNat_le
  have hget : p.getBytes = [0x7E, 1, hiByte f.transactionId,
      headByte f.transactionId final f.fragmentId, loByte f.fragmentId, f.flags, f.serviceId,
      f.methodId, hiByte f.errorCode, loByte f.errorCode,
      ((f.payload.length >>> 8) &&& 0xFF).toUInt8, (f.payload.length &&& 0xFF).toUInt8] ++
      f.payload := by
    rw [GenericCmdPacket.getBytes, hsize, hp, ← List.append_assoc]
    exact List.take_left' (Nat.add_comm f.payload.length 12)
  rw [hget]
  simp only [GenericCommand.read, List.cons_append, List.nil_append, toNat_genericSize hlen,
    if_true, toNat_headByte hfid, toNat_hiByte, toNat_loByte]
  simp only [GenericFields.command, Option.some.injEq, GenericCommand.mk.injEq, and_true, true_and]
  refine ⟨rfl, rfl, ?_, ?_, ?_⟩ <;> omega

/-- The exact condition on a packet: a transaction id of one nibble and the mark in place. -/
theorem Laid.carries_iff (h : p.Laid f final) :
    p.Carries f ↔ f.transactionId.toNat < 16 ∧ final = f.finalFragment := by
  have htid := h.transactionId
  unfold GenericCmdPacket.Carries
  rw [h.fields, h.read]
  constructor
  · rintro ⟨hfields, hread⟩
    have hfinal := congrArg GenericFields.finalFragment hfields
    have hcommand := congrArg GenericCommand.transactionId (Option.some.inj hread)
    simp only [GenericFields.command] at hfinal hcommand
    exact ⟨by omega, hfinal⟩
  · rintro ⟨hlt, rfl⟩
    have heq : p.transactionId = f.transactionId := by
      apply UInt16.toNat_inj.mp
      omega
    have hcommand : f.transactionId.toNat / 256 * 16 + f.transactionId.toNat % 16 =
        f.transactionId.toNat := by omega
    rw [heq, hcommand]
    exact ⟨rfl, rfl⟩

end GenericCmdPacket

theorem genericAfter_snoc (calls : List GenericCall) (call : GenericCall) :
    genericAfter (calls ++ [call]) = genericAfter calls >>= fun p => call.apply p := by
  simp [genericAfter, List.foldlM_append]

theorem genericFields_snoc (calls : List GenericCall) (call : GenericCall) :
    genericFields (calls ++ [call]) = call.record (genericFields calls) := by
  simp [genericFields]

/-- The mark of the final fragment that the calls leave. -/
def finalMark (calls : List GenericCall) : Bool := calls.foldl GenericCall.finalAfter true

theorem genericAfter_laid (h : ∀ c ∈ calls, c.Allowed) :
    ∃ p, genericAfter calls = .ok p ∧ p.Laid (genericFields calls) (finalMark calls) := by
  induction calls using List.reverseRecOn with
  | nil => exact ⟨_, rfl, laid_reset⟩
  | append_singleton calls call ih =>
    obtain ⟨p, hp, hlaid⟩ := ih (fun c hc => h c (List.mem_append_left _ hc))
    obtain ⟨p', hp', hlaid'⟩ := hlaid.apply (h call (by simp))
    refine ⟨p', ?_, ?_⟩
    · rw [genericAfter_snoc, hp]
      exact hp'
    · rw [genericFields_snoc, finalMark, List.foldl_append]
      exact hlaid'

theorem fragmentIdLast_snoc (calls : List GenericCall) (call : GenericCall) :
    FragmentIdLast (calls ++ [call]) ↔ (∃ fid, call = .setFragmentId fid) ∨
      FragmentIdLast calls ∧ ∀ v, call ≠ .setFinalFragment v := by
  constructor
  · rintro ⟨pre, fid, post, heq, hpost⟩
    rcases snoc_eq_split heq with ⟨-, -, hlast⟩ | ⟨post', rfl, hcalls⟩
    · exact Or.inl ⟨fid, hlast.symm⟩
    · refine Or.inr ⟨⟨pre, fid, post', hcalls, ?_⟩, ?_⟩
      · exact fun v hv => hpost v (List.mem_append_left _ hv)
      · rintro v rfl
        exact hpost v (by simp)
  · rintro (⟨fid, rfl⟩ | ⟨⟨pre, fid, post, rfl, hpost⟩, hcall⟩)
    · exact ⟨calls, fid, [], rfl, by simp⟩
    · refine ⟨pre, fid, post ++ [call], by simp, ?_⟩
      intro v hv
      rcases List.mem_append.mp hv with hv | hv
      · exact hpost v hv
      · exact hcall v (List.mem_singleton.mp hv).symm

theorem finalMark_eq_iff (calls : List GenericCall) :
    (FragmentIdLast calls → finalMark calls = false) ∧
      (¬ FragmentIdLast calls → finalMark calls = (genericFields calls).finalFragment) := by
  induction calls using List.reverseRecOn with
  | nil =>
    refine ⟨?_, fun _ => rfl⟩
    rintro ⟨pre, fid, post, heq, -⟩
    simp at heq
  | append_singleton calls call ih =>
    rw [fragmentIdLast_snoc, genericFields_snoc, finalMark, List.foldl_append]
    change (_ → call.finalAfter (finalMark calls) = false) ∧
      (_ → call.finalAfter (finalMark calls) = _)
    cases call with
    | setFinalFragment v => simp [GenericCall.finalAfter, GenericCall.record]
    | setFragmentId fid => simp [GenericCall.finalAfter]
    | setTransactionId | setFlags | setServiceId | setMethodId | setErrorCode | setPayload =>
      simpa [GenericCall.finalAfter, GenericCall.record] using ih

theorem generic_carries_iff (h : ∀ c ∈ calls, c.Allowed) :
    ∃ p, genericAfter calls = .ok p ∧ (p.Carries (genericFields calls) ↔
      (genericFields calls).transactionId.toNat < 16 ∧
        ((genericFields calls).finalFragment = true → ¬ FragmentIdLast calls)) := by
  obtain ⟨p, hp, hlaid⟩ := genericAfter_laid h
  refine ⟨p, hp, ?_⟩
  rw [hlaid.carries_iff]
  obtain ⟨hlost, hkept⟩ := finalMark_eq_iff calls
  by_cases hlast : FragmentIdLast calls
  · rw [hlost hlast]
    simp [hlast]
  · rw [hkept hlast]
    simp [hlast]

end Pc2Drc
