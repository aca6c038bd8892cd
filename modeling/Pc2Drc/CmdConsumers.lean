import Pc2Drc.Lib.Memory

/-! What the program does with the data of a reply. -/
namespace Pc2Drc
open Lib

/-- The camera and microphone settings sent to the pad with every synchronisation. -/
structure UvcUacCmdPacket where
  pkt : Vector UInt8 48
  deriving DecidableEq

namespace UvcUacCmdPacket

def setMicEnabled (p : UvcUacCmdPacket) (flag : Bool) : UvcUacCmdPacket :=
  ⟨p.pkt.set 4 (if flag then 1 else 0)⟩

def setMicVolume (p : UvcUacCmdPacket) (volume : UInt16) : UvcUacCmdPacket :=
  ⟨(p.pkt.set 6 (hiByte volume)).set 7 (loByte volume)⟩

def setMicJackVolume (p : UvcUacCmdPacket) (volume : UInt16) : UvcUacCmdPacket :=
  ⟨(p.pkt.set 8 (hiByte volume)).set 9 (loByte volume)⟩

def setMicSamplingRate (p : UvcUacCmdPacket) (samplingRate : UInt16) : UvcUacCmdPacket :=
  ⟨(p.pkt.set 12 (hiByte samplingRate)).set 13 (loByte samplingRate)⟩

def setCamPowerFrequency (p : UvcUacCmdPacket) (freq : UInt8) : UvcUacCmdPacket :=
  ⟨p.pkt.set 16 freq⟩

def setCamAutoExposureEnabled (p : UvcUacCmdPacket) (autoExp : Bool) : UvcUacCmdPacket :=
  ⟨p.pkt.set 17 (if autoExp then 1 else 0)⟩

def micEnabled (p : UvcUacCmdPacket) : Bool := p.pkt[4] != 0

def micVolume (p : UvcUacCmdPacket) : Int16 := (u16OfBytes p.pkt[6] p.pkt[7]).toInt16

def micJackVolume (p : UvcUacCmdPacket) : Int16 := (u16OfBytes p.pkt[8] p.pkt[9]).toInt16

def micSamplingRate (p : UvcUacCmdPacket) : UInt16 := u16OfBytes p.pkt[12] p.pkt[13]

def camPowerFrequency (p : UvcUacCmdPacket) : UInt8 := p.pkt[16]

def camAutoExposureEnabled (p : UvcUacCmdPacket) : Bool := p.pkt[17] != 0

def resetPacket : UvcUacCmdPacket :=
  setMicSamplingRate ⟨Vector.replicate 48 0⟩ 16000

end UvcUacCmdPacket

/-- A vector's bytes are all written, so only an index can be wrong. -/
def loadByte (d : List UInt8) (i : ℕ) : Except Fault UInt8 := load (d.map some) i

/-- The synchroniser's tick after its query returned. Bytes 4 to 11 are read and dropped. -/
def uvcUacTick (state : UvcUacCmdPacket) (success : Bool) (d : List UInt8) :
    Except Fault UvcUacCmdPacket :=
  if success then do
    let state := state.setMicVolume (u16OfBytes (← loadByte d 1) (← loadByte d 0))
    let state := state.setMicJackVolume (u16OfBytes (← loadByte d 3) (← loadByte d 2))
    let _unkMcVideoCmos ← loadRange (d.map some) 4 4
    let _unk8 ← loadRange (d.map some) 8 4
    let state := state.setMicEnabled ((← loadByte d 12) != 0)
    let state := state.setCamPowerFrequency (← loadByte d 13)
    return state.setCamAutoExposureEnabled ((← loadByte d 14) != 0)
  else .ok state

/-- The callback of `SyncUICConfig`: the blob it hands to `LoadFromBlob`, if any. -/
def uicConfigCallback (success : Bool) (reply : List UInt8) :
    Except Fault (Option (List UInt8)) :=
  if success ∧ reply.length = 0x310 then do
    return some (← loadRange (reply.map some) 0x10 0x300)
  else .ok none

/-- Who waits for a reply: the synchroniser, the configuration callback, or a blocked caller that
takes no data. -/
inductive Consumer
  | uvcUac
  | uicConfig
  | waiter
  deriving DecidableEq, Repr

/-- The consumer reads only inside the data it is given. -/
def Consumer.ReadsInside (k : Consumer) (success : Bool) (data : List UInt8) : Prop :=
  match k with
  | .uvcUac => ∀ state, ∃ state', uvcUacTick state success data = .ok state'
  | .uicConfig => ∃ blob, uicConfigCallback success data = .ok blob
  | .waiter => True

theorem loadByte_eq_ok {d : List UInt8} {i : ℕ} {b : UInt8} :
    loadByte d i = .ok b ↔ d[i]? = some b := by
  rw [loadByte, load_eq_ok, List.getElem?_map]
  cases d[i]? <;> simp

/-- A range of a vector is read exactly when it lies inside. -/
theorem loadRange_map_some {d : List UInt8} {off n : ℕ} (h : off + n ≤ d.length) :
    loadRange (d.map some) off n = .ok ((d.drop off).take n) := by
  rw [loadRange_eq_ok]
  refine ⟨by simp; omega, ?_⟩
  intro k hk
  have hlt : off + k < d.length := by omega
  simp [hk, hlt]

/-- The tick needs fifteen bytes and does not look how many there are. -/
theorem uvcUacTick_eq_ok {state : UvcUacCmdPacket} {d : List UInt8} :
    (∃ state', uvcUacTick state true d = .ok state') ↔ 15 ≤ d.length := by
  constructor
  · rintro ⟨state', h⟩
    simp only [uvcUacTick, if_true, bind_eq_ok] at h
    obtain ⟨_, _, _, _, _, _, _, _, _, _, _, _, _, _, _, _, b, hb, _⟩ := h
    have := (List.getElem?_eq_some_iff.mp (loadByte_eq_ok.mp hb)).1
    omega
  · intro hlen
    have hb : ∀ i, i < 15 → ∃ b, loadByte d i = .ok b := by
      intro i hi
      exact ⟨_, loadByte_eq_ok.mpr (List.getElem?_eq_getElem (by omega : i < d.length))⟩
    obtain ⟨b0, h0⟩ := hb 0 (by omega)
    obtain ⟨b1, h1⟩ := hb 1 (by omega)
    obtain ⟨b2, h2⟩ := hb 2 (by omega)
    obtain ⟨b3, h3⟩ := hb 3 (by omega)
    obtain ⟨b12, h12⟩ := hb 12 (by omega)
    obtain ⟨b13, h13⟩ := hb 13 (by omega)
    obtain ⟨b14, h14⟩ := hb 14 (by omega)
    have h4 := loadRange_map_some (d := d) (by omega : 4 + 4 ≤ d.length)
    have h8 := loadRange_map_some (d := d) (by omega : 8 + 4 ≤ d.length)
    simp [uvcUacTick, h0, h1, h2, h3, h4, h8, h12, h13, h14, bind, Except.bind, pure, Except.pure]

/-- The configuration callback checks the length it needs. -/
theorem uicConfigCallback_eq_ok (success : Bool) (reply : List UInt8) :
    ∃ blob, uicConfigCallback success reply = .ok blob := by
  unfold uicConfigCallback
  split
  · rename_i h
    have hr := loadRange_map_some (d := reply) (by omega : 0x10 + 0x300 ≤ reply.length)
    exact ⟨_, by rw [hr]; rfl⟩
  · exact ⟨none, rfl⟩

theorem Consumer.readsInside_iff {k : Consumer} {data : List UInt8} :
    k.ReadsInside true data ↔ (k = .uvcUac → 15 ≤ data.length) := by
  cases k with
  | uvcUac =>
    simp only [ReadsInside, uvcUacTick_eq_ok, forall_const]
    exact ⟨fun h => h .resetPacket, fun h _ => h⟩
  | uicConfig => simp [ReadsInside, uicConfigCallback_eq_ok]
  | waiter => simp [ReadsInside]

end Pc2Drc
