import Pc2Drc.AstrmPacket
import Pc2Drc.Lib.Run
import Pc2Drc.Packetization

/-! The video streamer's loop: what is pushed to it, the resync event, and the timer tick that
sends the frame of the last tick and generates the next one. -/
namespace Pc2Drc
open Lib

/-- The members of the object and, from `resyncRequested` on, the locals its callbacks share. -/
structure VideoStreamer where
  frame : List UInt8
  h264Chunks : List (List UInt8)
  frameRate : VideoFrameRate
  resyncRequested : Bool
  latchedChunks : List (List UInt8)
  encodingFrame : List UInt8
  vstrmInited : Bool
  vstrmSeqid : UInt16
  vstrmPackets : List VstrmPacket
  sendIdr : Bool
  astrmPacket : AstrmPacket
  nextTimestamp : Int32

/-- A frame that was packetized, with the packets it became and the format packet made for it. -/
structure GeneratedFrame where
  params : FrameParams
  chunks : H264ChunkArray
  packets : List VstrmPacket
  astrmPacket : AstrmPacket

/-- What a step of the loop shows: datagrams sent, a frame generated, the timer armed again. -/
inductive StreamOutput
  | astrm (bytes : List UInt8)
  | vstrm (bytes : List UInt8)
  | generated (g : GeneratedFrame)
  | rearmTimer (ns : ℕ)

/-- The ways into the loop. A tick reads the clock twice; `encoded` is what the encoder returns if
it is asked. -/
inductive StreamAction
  | pushFrame (frame : List UInt8)
  | pushH264Chunks (chunks : List (List UInt8))
  | setFrameRate (frameRate : VideoFrameRate)
  | resync
  | tick (now later : UInt32) (encoded : H264ChunkArray)

namespace VideoStreamer

/-- The loop before its first event; `timestamp` is the clock at that moment. -/
def create (timestamp : UInt32) : VideoStreamer :=
  { frame := [], h264Chunks := [], frameRate := .k59_94Hz, resyncRequested := false,
    latchedChunks := [], encodingFrame := [], vstrmInited := false, vstrmSeqid := 0,
    vstrmPackets := [], sendIdr := false, astrmPacket := .resetPacket,
    nextTimestamp := timestamp.toInt32 }

def latchOnCurrentFrame (v : VideoStreamer) : VideoStreamer :=
  if v.frame.length ≠ 0 then { v with encodingFrame := v.frame, frame := [] } else v

def latchOnCurrentChunks (v : VideoStreamer) : VideoStreamer :=
  if v.h264Chunks.length ≠ 0 then { v with latchedChunks := v.h264Chunks, h264Chunks := [] } else v

/-- The first part of the tick. A request that is still there when an IDR frame goes out is met by
that frame. -/
def sendPending (v : VideoStreamer) : VideoStreamer × List StreamOutput :=
  if v.vstrmInited then
    ({ v with
        vstrmPackets := []
        resyncRequested := if v.sendIdr && v.resyncRequested then false else v.resyncRequested },
      .astrm v.astrmPacket.getBytes :: v.vstrmPackets.map fun pkt => .vstrm pkt.getBytes)
  else (v, [])

/-- The array to packetize, if there is anything: pushed chunks go before a pushed frame. -/
def currentChunks (v : VideoStreamer) (encoded : H264ChunkArray) : Option H264ChunkArray :=
  if v.latchedChunks.length > 0 then some (asChunkArray v.latchedChunks)
  else if v.encodingFrame.length > 0 then some encoded
  else none

/-- The second part of the tick. -/
def generateFrame (v : VideoStreamer) (timestamp : UInt32) (encoded : H264ChunkArray) :
    Except Fault (VideoStreamer × List StreamOutput) :=
  match v.currentChunks encoded with
  | none => .ok (v, [])
  | some chunks => do
    let sendIdr := v.resyncRequested || !v.vstrmInited
    let (pkts, _, seqid) ← generateVstrmPackets v.vstrmPackets chunks timestamp sendIdr
      v.vstrmInited v.vstrmSeqid v.frameRate
    let astrm ← generateAstrmPacket timestamp
    let g : GeneratedFrame :=
      ⟨⟨timestamp, sendIdr, !v.vstrmInited, v.frameRate⟩, chunks,
        pkts.drop v.vstrmPackets.length, astrm⟩
    return ({ v with
        sendIdr := sendIdr, vstrmPackets := pkts, vstrmSeqid := seqid, astrmPacket := astrm,
        vstrmInited := true, resyncRequested := false }, [.generated g])

/-- The last part of the tick, in 32-bit signed arithmetic of microseconds. -/
def rearm (v : VideoStreamer) (timestamp : UInt32) : VideoStreamer × List StreamOutput :=
  let nextTimestamp := v.nextTimestamp + 16683
  let deltaNext := nextTimestamp - timestamp.toInt32
  let deltaNext := if deltaNext < 1000 then 1000 else deltaNext
  ({ v with nextTimestamp := nextTimestamp }, [.rearmTimer (deltaNext.toInt.toNat * 1000)])

def tick (v : VideoStreamer) (now later : UInt32) (encoded : H264ChunkArray) :
    Except Fault (VideoStreamer × List StreamOutput) := do
  let (v, sent) := v.sendPending
  let v := v.latchOnCurrentChunks.latchOnCurrentFrame
  let (v, generated) ← v.generateFrame now encoded
  let (v, timer) := v.rearm later
  return (v, sent ++ generated ++ timer)

def handle (v : VideoStreamer) : StreamAction → Except Fault (VideoStreamer × List StreamOutput)
  | .pushFrame frame => .ok ({ v with frame := frame }, [])
  | .pushH264Chunks chunks => .ok ({ v with h264Chunks := chunks }, [])
  | .setFrameRate frameRate => .ok ({ v with frameRate := frameRate }, [])
  | .resync => .ok ({ v with resyncRequested := true }, [])
  | .tick now later encoded => v.tick now later encoded

end VideoStreamer

def StreamStep (v : VideoStreamer) (a : StreamAction) (out : List StreamOutput)
    (v' : VideoStreamer) : Prop :=
  v.handle a = .ok (v', out)

abbrev StreamTrace := List (StreamAction × List StreamOutput)

/-- The runs of the loop from its start. -/
def StreamRun (timestamp : UInt32) (tr : StreamTrace) (v : VideoStreamer) : Prop :=
  Steps StreamStep (VideoStreamer.create timestamp) tr v

namespace VideoStreamer

variable {v v' : VideoStreamer} {now later : UInt32} {encoded : H264ChunkArray}
  {out : List StreamOutput}

/-- The variables in the middle of a tick, when the pushed sources have been latched. -/
def latched (v : VideoStreamer) : VideoStreamer :=
  v.sendPending.1.latchOnCurrentChunks.latchOnCurrentFrame

/-- A latch leaves both slots empty; what was in them replaces the older copy. -/
theorem latched_slots (v : VideoStreamer) :
    v.latched.frame = [] ∧ v.latched.h264Chunks = [] ∧
      v.latched.latchedChunks = (if v.h264Chunks = [] then v.latchedChunks else v.h264Chunks) ∧
      v.latched.encodingFrame = if v.frame = [] then v.encodingFrame else v.frame := by
  have hsame : v.sendPending.1.frame = v.frame ∧ v.sendPending.1.h264Chunks = v.h264Chunks ∧
      v.sendPending.1.latchedChunks = v.latchedChunks ∧
      v.sendPending.1.encodingFrame = v.encodingFrame := by
    unfold sendPending
    split_ifs <;> exact ⟨rfl, rfl, rfl, rfl⟩
  obtain ⟨hf, hc, hl, he⟩ := hsame
  rw [← hf, ← hc, ← hl, ← he, latched]
  generalize v.sendPending.1 = u
  unfold latchOnCurrentFrame latchOnCurrentChunks
  by_cases hchunks : u.h264Chunks = [] <;> by_cases hframe : u.frame = [] <;>
    simp [hchunks, hframe]

theorem currentChunks_cases (v : VideoStreamer) (encoded : H264ChunkArray) :
    v.latchedChunks ≠ [] ∧ v.currentChunks encoded = some (asChunkArray v.latchedChunks) ∨
      v.latchedChunks = [] ∧ v.encodingFrame ≠ [] ∧ v.currentChunks encoded = some encoded ∨
      v.latchedChunks = [] ∧ v.encodingFrame = [] ∧ v.currentChunks encoded = none := by
  unfold currentChunks
  by_cases hchunks : v.latchedChunks = []
  · by_cases hframe : v.encodingFrame = []
    · exact Or.inr (Or.inr ⟨hchunks, hframe, by simp [hchunks, hframe]⟩)
    · refine Or.inr (Or.inl ⟨hchunks, hframe, ?_⟩)
      simp [hchunks, List.length_pos_iff, hframe]
  · exact Or.inl ⟨hchunks, if_pos (List.length_pos_iff.mpr hchunks)⟩

theorem tick_inv (h : v.tick now later encoded = .ok (v', out)) :
    ∃ u gen, v.latched.generateFrame now encoded = .ok (u, gen) ∧ v' = (u.rearm later).1 ∧
      out = v.sendPending.2 ++ gen ++ (u.rearm later).2 := by
  obtain ⟨⟨u, gen⟩, hgen, hret⟩ := bind_eq_ok.mp h
  cases hret
  exact ⟨u, gen, hgen, rfl, rfl⟩

/-- A generated frame is made of the current chunks and leaves the sources and the schedule as
they are. -/
theorem generateFrame_inv (h : v.generateFrame now encoded = .ok (v', out)) :
    v'.frame = v.frame ∧ v'.h264Chunks = v.h264Chunks ∧ v'.latchedChunks = v.latchedChunks ∧
      v'.encodingFrame = v.encodingFrame ∧ v'.nextTimestamp = v.nextTimestamp ∧
      (v.currentChunks encoded = none ∧ out = [] ∨
        ∃ g, v.currentChunks encoded = some g.chunks ∧ g.params.timestamp = now ∧
          out = [.generated g]) := by
  unfold generateFrame at h
  cases hc : v.currentChunks encoded with
  | none =>
    rw [hc] at h
    cases h
    exact ⟨rfl, rfl, rfl, rfl, rfl, Or.inl ⟨rfl, rfl⟩⟩
  | some chunks =>
    rw [hc] at h
    obtain ⟨⟨pkts, inited, seqid⟩, -, h⟩ := bind_eq_ok.mp h
    obtain ⟨astrm, -, h⟩ := bind_eq_ok.mp h
    cases h
    exact ⟨rfl, rfl, rfl, rfl, rfl, Or.inr ⟨_, rfl, rfl, rfl⟩⟩

end VideoStreamer

end Pc2Drc
