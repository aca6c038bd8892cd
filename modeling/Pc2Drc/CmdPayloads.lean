import Pc2Drc.CmdConsumers
import Pc2Drc.GenericCmdPacket

/-! The payload formats of commands: next to the generic one the camera and microphone settings and
the time, each with its setters, its getters and its documented layout. -/
namespace Pc2Drc
open Lib

namespace UvcUacCmdPacket

def micMuted (p : UvcUacCmdPacket) : Bool := p.pkt[5] != 0

def camEnabled (p : UvcUacCmdPacket) : Bool := p.pkt[14] != 0

def setMicMuted (p : UvcUacCmdPacket) (flag : Bool) : UvcUacCmdPacket :=
  ⟨p.pkt.set 5 (if flag then 1 else 0)⟩

def setCamEnabled (p : UvcUacCmdPacket) (enabled : Bool) : UvcUacCmdPacket :=
  ⟨p.pkt.set 14 (if enabled then 1 else 0)⟩

def setCamPower (p : UvcUacCmdPacket) (power : UInt8) : UvcUacCmdPacket := ⟨p.pkt.set 15 power⟩

end UvcUacCmdPacket

inductive UvcUacCall
  | setMicEnabled (flag : Bool)
  | setMicMuted (flag : Bool)
  | setMicVolume (volume : Int16)
  | setMicJackVolume (volume : Int16)
  | setMicSamplingRate (samplingRate : UInt16)
  | setCamEnabled (enabled : Bool)
  | setCamPower (power : UInt8)
  | setCamPowerFrequency (freq : UInt8)
  | setCamAutoExposureEnabled (autoExp : Bool)

def UvcUacCall.apply (p : UvcUacCmdPacket) : UvcUacCall → UvcUacCmdPacket
  | .setMicEnabled flag => p.setMicEnabled flag
  | .setMicMuted flag => p.setMicMuted flag
  | .setMicVolume volume => p.setMicVolume volume.toUInt16
  | .setMicJackVolume volume => p.setMicJackVolume volume.toUInt16
  | .setMicSamplingRate samplingRate => p.setMicSamplingRate samplingRate
  | .setCamEnabled enabled => p.setCamEnabled enabled
  | .setCamPower power => p.setCamPower power
  | .setCamPowerFrequency freq => p.setCamPowerFrequency freq
  | .setCamAutoExposureEnabled autoExp => p.setCamAutoExposureEnabled autoExp

def uvcUacAfter (calls : List UvcUacCall) : UvcUacCmdPacket :=
  calls.foldl UvcUacCall.apply .resetPacket

structure UvcUacFields where
  micEnabled : Bool
  micMuted : Bool
  micVolume : Int16
  micJackVolume : Int16
  micSamplingRate : UInt16
  camEnabled : Bool
  camPower : UInt8
  camPowerFrequency : UInt8
  camAutoExposureEnabled : Bool
  deriving DecidableEq

def UvcUacFields.reset : UvcUacFields :=
  { micEnabled := false, micMuted := false, micVolume := 0, micJackVolume := 0,
    micSamplingRate := 16000, camEnabled := false, camPower := 0, camPowerFrequency := 0,
    camAutoExposureEnabled := false }

def UvcUacCall.record (f : UvcUacFields) : UvcUacCall → UvcUacFields
  | .setMicEnabled flag => { f with micEnabled := flag }
  | .setMicMuted flag => { f with micMuted := flag }
  | .setMicVolume volume => { f with micVolume := volume }
  | .setMicJackVolume volume => { f with micJackVolume := volume }
  | .setMicSamplingRate samplingRate => { f with micSamplingRate := samplingRate }
  | .setCamEnabled enabled => { f with camEnabled := enabled }
  | .setCamPower power => { f with camPower := power }
  | .setCamPowerFrequency freq => { f with camPowerFrequency := freq }
  | .setCamAutoExposureEnabled autoExp => { f with camAutoExposureEnabled := autoExp }

def uvcUacFields (calls : List UvcUacCall) : UvcUacFields :=
  calls.foldl UvcUacCall.record .reset

/-- The documented settings; unknown fields are left out. The documentation names no byte order, so
it is that of the getters. -/
structure UvcUacCommand where
  micEnable : UInt8
  micMute : UInt8
  micVolume : ℤ
  micVolume2 : ℤ
  micFreq : ℕ
  camEnable : UInt8
  camPower : UInt8
  camPowerFreq : UInt8
  camAutoExpo : UInt8
  deriving DecidableEq

/-- A signed 16-bit value, by two's complement. -/
def signed16 (hi lo : UInt8) : ℤ :=
  if hi.toNat < 128 then hi.toNat * 2 ^ 8 + lo.toNat else hi.toNat * 2 ^ 8 + lo.toNat - 2 ^ 16

def UvcUacCommand.read : List UInt8 → Option UvcUacCommand
  | _ :: _ :: _ :: _ :: b4 :: b5 :: b6 :: b7 :: b8 :: b9 :: _ :: _ :: b12 :: b13 :: b14 :: b15 ::
      b16 :: b17 :: _ =>
    some {
      micEnable := b4
      micMute := b5
      micVolume := signed16 b6 b7
      micVolume2 := signed16 b8 b9
      micFreq := b12.toNat * 2 ^ 8 + b13.toNat
      camEnable := b14
      camPower := b15
      camPowerFreq := b16
      camAutoExpo := b17 }
  | _ => none

def UvcUacFields.command (f : UvcUacFields) : UvcUacCommand where
  micEnable := if f.micEnabled then 1 else 0
  micMute := if f.micMuted then 1 else 0
  micVolume := f.micVolume.toInt
  micVolume2 := f.micJackVolume.toInt
  micFreq := f.micSamplingRate.toNat
  camEnable := if f.camEnabled then 1 else 0
  camPower := f.camPower
  camPowerFreq := f.camPowerFrequency
  camAutoExpo := if f.camAutoExposureEnabled then 1 else 0

/-- The getters, of which the camera's power has none, and the documented layout give the fields. -/
structure UvcUacCmdPacket.Carries (p : UvcUacCmdPacket) (f : UvcUacFields) : Prop where
  micEnabled : p.micEnabled = f.micEnabled
  micMuted : p.micMuted = f.micMuted
  micVolume : p.micVolume = f.micVolume
  micJackVolume : p.micJackVolume = f.micJackVolume
  micSamplingRate : p.micSamplingRate = f.micSamplingRate
  camEnabled : p.camEnabled = f.camEnabled
  camPowerFrequency : p.camPowerFrequency = f.camPowerFrequency
  camAutoExposureEnabled : p.camAutoExposureEnabled = f.camAutoExposureEnabled
  read : UvcUacCommand.read p.pkt.toList = some f.command

/-- The packet that holds the fields. -/
def UvcUacFields.packet (f : UvcUacFields) : UvcUacCmdPacket :=
  let flag (b : Bool) : UInt8 := if b then 1 else 0
  ⟨#v[0, 0, 0, 0, flag f.micEnabled, flag f.micMuted, hiByte f.micVolume.toUInt16,
    loByte f.micVolume.toUInt16, hiByte f.micJackVolume.toUInt16, loByte f.micJackVolume.toUInt16,
    0, 0, hiByte f.micSamplingRate, loByte f.micSamplingRate, flag f.camEnabled, f.camPower,
    f.camPowerFrequency, flag f.camAutoExposureEnabled, 0, 0, 0, 0, 0, 0, 0, 0, 0, 0, 0, 0, 0, 0, 0,
    0, 0, 0, 0, 0, 0, 0, 0, 0, 0, 0, 0, 0, 0, 0]⟩

theorem uvcUacAfter_eq (calls : List UvcUacCall) :
    uvcUacAfter calls = (uvcUacFields calls).packet := by
  induction calls using List.reverseRecOn with
  | nil => rfl
  | append_singleton calls call ih =>
    rw [uvcUacAfter, uvcUacFields, List.foldl_append, List.foldl_append]
    change call.apply (uvcUacAfter calls) = (call.record (uvcUacFields calls)).packet
    rw [ih]
    cases call <;> rfl

theorem signed16_bytes (v : Int16) :
    signed16 (hiByte v.toUInt16) (loByte v.toUInt16) = v.toInt := by
  have hn : v.toInt = signed 16 v.toUInt16.toNat := toInt_toInt16 v.toUInt16
  rw [signed16, toNat_hiByte, toNat_loByte, hn, signed]
  split_ifs <;> omega

theorem flag_ne_zero (b : Bool) : ((if b then 1 else 0 : UInt8) != 0) = b := by
  cases b <;> rfl

theorem UvcUacFields.carries_packet (f : UvcUacFields) : f.packet.Carries f where
  micEnabled := flag_ne_zero _
  micMuted := flag_ne_zero _
  micVolume := by
    change (u16OfBytes (hiByte f.micVolume.toUInt16) (loByte f.micVolume.toUInt16)).toInt16 = _
    simp
  micJackVolume := by
    change (u16OfBytes (hiByte f.micJackVolume.toUInt16)
      (loByte f.micJackVolume.toUInt16)).toInt16 = _
    simp
  micSamplingRate := u16OfBytes_hi_lo _
  camEnabled := flag_ne_zero _
  camPowerFrequency := rfl
  camAutoExposureEnabled := flag_ne_zero _
  read := by
    have hrate : (hiByte f.micSamplingRate).toNat * 2 ^ 8 + (loByte f.micSamplingRate).toNat =
        f.micSamplingRate.toNat := by
      rw [toNat_hiByte, toNat_loByte]
      omega
    rw [UvcUacFields.command, ← hrate, ← signed16_bytes, ← signed16_bytes]
    rfl

theorem uvcUac_carries (calls : List UvcUacCall) :
    (uvcUacAfter calls).Carries (uvcUacFields calls) := by
  rw [uvcUacAfter_eq]
  exact (uvcUacFields calls).carries_packet

structure TimeCmdPacket where
  pkt : Vector UInt8 8
  deriving DecidableEq

namespace TimeCmdPacket

def resetPacket : TimeCmdPacket := ⟨Vector.replicate 8 0⟩

def days (p : TimeCmdPacket) : UInt16 := u16OfBytes p.pkt[1] p.pkt[0]

def seconds (p : TimeCmdPacket) : UInt32 :=
  (p.pkt[7].toUInt32 <<< 24) ||| (p.pkt[6].toUInt32 <<< 16) ||| (p.pkt[5].toUInt32 <<< 8) |||
    p.pkt[4].toUInt32

/-- The second byte is shifted the wrong way. -/
def setDays (p : TimeCmdPacket) (days : UInt16) : TimeCmdPacket :=
  ⟨(p.pkt.set 0 (days &&& 0xFF).toUInt8).set 1 (days <<< 8).toUInt8⟩

def setSeconds (p : TimeCmdPacket) (seconds : UInt32) : TimeCmdPacket :=
  ⟨(((p.pkt.set 4 (seconds &&& 0xFF).toUInt8).set 5 (seconds >>> 8).toUInt8).set 6
    (seconds >>> 16).toUInt8).set 7 (seconds >>> 24).toUInt8⟩

end TimeCmdPacket

inductive TimeCall
  | setDays (days : UInt16)
  | setSeconds (seconds : UInt32)

def TimeCall.apply (p : TimeCmdPacket) : TimeCall → TimeCmdPacket
  | .setDays days => p.setDays days
  | .setSeconds seconds => p.setSeconds seconds

def timeAfter (calls : List TimeCall) : TimeCmdPacket := calls.foldl TimeCall.apply .resetPacket

structure TimeFields where
  days : UInt16
  seconds : UInt32
  deriving DecidableEq

def TimeCall.record (f : TimeFields) : TimeCall → TimeFields
  | .setDays days => { f with days := days }
  | .setSeconds seconds => { f with seconds := seconds }

def timeFields (calls : List TimeCall) : TimeFields := calls.foldl TimeCall.record ⟨0, 0⟩

/-- The documented counters, at offsets 0 and 4, in the byte order of the getters. -/
def readTimeCommand : List UInt8 → Option (ℕ × ℕ)
  | [b0, b1, _, _, b4, b5, b6, b7] =>
    some (b1.toNat * 2 ^ 8 + b0.toNat,
      b7.toNat * 2 ^ 24 + b6.toNat * 2 ^ 16 + b5.toNat * 2 ^ 8 + b4.toNat)
  | _ => none

structure TimeCmdPacket.Carries (p : TimeCmdPacket) (f : TimeFields) : Prop where
  days : p.days = f.days
  seconds : p.seconds = f.seconds
  read : readTimeCommand p.pkt.toList = some (f.days.toNat, f.seconds.toNat)

/-- The packet that the setters leave for the fields. -/
def TimeFields.packet (f : TimeFields) : TimeCmdPacket :=
  ⟨#v[(f.days &&& 0xFF).toUInt8, (f.days <<< 8).toUInt8, 0, 0, (f.seconds &&& 0xFF).toUInt8,
    (f.seconds >>> 8).toUInt8, (f.seconds >>> 16).toUInt8, (f.seconds >>> 24).toUInt8]⟩

theorem timeAfter_eq (calls : List TimeCall) : timeAfter calls = (timeFields calls).packet := by
  induction calls using List.reverseRecOn with
  | nil => rfl
  | append_singleton calls call ih =>
    rw [timeAfter, timeFields, List.foldl_append, List.foldl_append]
    change call.apply (timeAfter calls) = (call.record (timeFields calls)).packet
    rw [ih]
    cases call <;> rfl

theorem TimeFields.carries_iff (f : TimeFields) : f.packet.Carries f ↔ f.days.toNat < 256 := by
  have hlost : (f.days <<< 8).toUInt8 = 0 := by
    apply UInt8.toNat_inj.mp
    simp [Nat.shiftLeft_eq]
  have hdays : f.packet.days.toNat = f.days.toNat % 256 := by
    change (u16OfBytes (f.days <<< 8).toUInt8 (loByte f.days)).toNat = _
    rw [toNat_u16OfBytes, hlost, toNat_loByte]
    simp
  have hlow : (f.days &&& 0xFF).toUInt8.toNat = f.days.toNat % 256 := toNat_loByte f.days
  have hbytes : (f.seconds >>> 24).toUInt8.toNat * 2 ^ 24 +
      (f.seconds >>> 16).toUInt8.toNat * 2 ^ 16 + (f.seconds >>> 8).toUInt8.toNat * 2 ^ 8 +
      (f.seconds &&& 0xFF).toUInt8.toNat = f.seconds.toNat := by
    have := f.seconds.toNat_lt
    simp [and_byte_mask, Nat.shiftRight_eq_div_pow]
    omega
  constructor
  · intro h
    rw [h.days] at hdays
    omega
  · intro hlt
    refine ⟨?_, ?_, ?_⟩
    · apply UInt16.toNat_inj.mp
      omega
    · apply UInt32.toNat_inj.mp
      rw [← hbytes, ← toNat_u32OfBytes]
      rfl
    · rw [← hbytes]
      change some ((f.days <<< 8).toUInt8.toNat * 2 ^ 8 + (f.days &&& 0xFF).toUInt8.toNat, _) = _
      rw [hlost, hlow, Nat.mod_eq_of_lt hlt]
      simp

/-- Every field of every format is read back whatever was set before or after it. -/
def PayloadFormatsRight : Prop :=
  (∀ calls, (∀ c ∈ calls, GenericCall.Allowed c) →
    ∃ p, genericAfter calls = .ok p ∧ p.Carries (genericFields calls)) ∧
  (∀ calls, (uvcUacAfter calls).Carries (uvcUacFields calls)) ∧
  ∀ calls, (timeAfter calls).Carries (timeFields calls)

/-- Which sequences of setter calls are read back: of a generic command those with a transaction id
of one nibble and no fragment id after the mark of the final fragment, of the settings all of them,
and of the time those with a count of days of one byte. -/
theorem payload_formats_iff (generic : List GenericCall) (hallowed : ∀ c ∈ generic, c.Allowed)
    (uvcUac : List UvcUacCall) (time : List TimeCall) :
    (∃ p, genericAfter generic = .ok p ∧ (p.Carries (genericFields generic) ↔
      (genericFields generic).transactionId.toNat < 16 ∧
        ((genericFields generic).finalFragment = true → ¬ FragmentIdLast generic))) ∧
    (uvcUacAfter uvcUac).Carries (uvcUacFields uvcUac) ∧
    ((timeAfter time).Carries (timeFields time) ↔ (timeFields time).days.toNat < 256) := by
  refine ⟨generic_carries_iff hallowed, uvcUac_carries uvcUac, ?_⟩
  rw [timeAfter_eq]
  exact TimeFields.carries_iff _

/-- The theorem at a query with a small transaction id and at a count of days of one byte. -/
theorem payload_formats_small : (∃ p, genericAfter [.setTransactionId 5, .setFlags 0x40] = .ok p ∧
      p.Carries (genericFields [.setTransactionId 5, .setFlags 0x40])) ∧
    (timeAfter [.setDays 255]).Carries (timeFields [.setDays 255]) := by
  obtain ⟨⟨p, hp, hiff⟩, -, htime⟩ := payload_formats_iff [.setTransactionId 5, .setFlags 0x40]
    (by simp [GenericCall.Allowed]) [] [.setDays 255]
  constructor
  · refine ⟨p, hp, hiff.mpr ⟨by decide, ?_⟩⟩
    rintro - ⟨pre, fid, post, heq, -⟩
    have hmem : GenericCall.setFragmentId fid ∈
        [GenericCall.setTransactionId 5, GenericCall.setFlags 0x40] := by simp [heq]
    simp at hmem
  · exact htime.mpr (by decide)

/-- A transaction id of five bits is not read back. -/
theorem payload_formats_wrong : ¬ PayloadFormatsRight := by
  rintro ⟨hgeneric, -, -⟩
  have hallowed : ∀ c ∈ [GenericCall.setTransactionId 16], c.Allowed := by
    simp [GenericCall.Allowed]
  obtain ⟨p, hp, hcarries⟩ := hgeneric _ hallowed
  obtain ⟨q, hq, hiff⟩ := generic_carries_iff hallowed
  cases hp.symm.trans hq
  exact absurd (hiff.mp hcarries).1 (by decide)

end Pc2Drc
