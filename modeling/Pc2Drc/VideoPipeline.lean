import Pc2Drc.VideoStreamer

/-! What the video streamer is for: a pipeline of depth one. A tick sends the frame that is
pending and puts the next one in its place. -/
namespace Pc2Drc
open Lib

/-- `count` is the number of `vstrm` packets generated so far. -/
structure Pipeline where
  pending : Option GeneratedFrame
  count : ℕ
  resync : Bool

/-- The datagrams of a frame: its format packet, then its packets in order. -/
def GeneratedFrame.group (g : GeneratedFrame) : List StreamOutput :=
  .astrm g.astrmPacket.getBytes :: g.packets.map fun pkt => .vstrm pkt.getBytes

/-- A frame generated as the packets from number `count` on. -/
structure GeneratedFrame.Ok (g : GeneratedFrame) (count : ℕ) (init : Bool) : Prop where
  packets : ReadAs g.packets (frameDatagrams g.params count g.chunks.toList)
  init : g.params.init = init
  format : VideoFormat.read g.astrmPacket.getBytes = some ⟨true, g.params.timestamp.toNat⟩

namespace Pipeline

def create : Pipeline := { pending := none, count := 0, resync := false }

def sent (p : Pipeline) : List StreamOutput := (p.pending.map GeneratedFrame.group).getD []

/-- The request is met by the pending frame if that is an IDR frame. -/
def resyncLeft (p : Pipeline) : Bool :=
  match p.pending with
  | none => p.resync
  | some g => p.resync && !g.params.idr

end Pipeline

/-- A step of the pipeline. Nothing is generated only as long as nothing ever was. -/
inductive PipelineStep : Pipeline → StreamAction → List StreamOutput → Pipeline → Prop
  | push {p : Pipeline} {a : StreamAction} :
      (∀ now later encoded, a ≠ .tick now later encoded) → a ≠ .resync → PipelineStep p a [] p
  | resync {p : Pipeline} : PipelineStep p .resync [] { p with resync := true }
  | idle {p : Pipeline} {now later : UInt32} {encoded : H264ChunkArray} {ns : ℕ} :
      p.pending = none → PipelineStep p (.tick now later encoded) [.rearmTimer ns] p
  | frame {p : Pipeline} {now later : UInt32} {encoded : H264ChunkArray} {ns : ℕ}
      {g : GeneratedFrame} :
      g.Ok p.count p.pending.isNone → g.params.idr = (p.resyncLeft || p.pending.isNone) →
      PipelineStep p (.tick now later encoded) (p.sent ++ [.generated g, .rearmTimer ns])
        { pending := some g, count := p.count + g.packets.length, resync := false }

/-- The streamer's variables against the pipeline they keep. -/
structure Streams (p : Pipeline) (v : VideoStreamer) : Prop where
  inited : v.vstrmInited = p.pending.isSome
  packets : v.vstrmPackets = (p.pending.map GeneratedFrame.packets).getD []
  pending : ∀ g, p.pending = some g → v.sendIdr = g.params.idr ∧ v.astrmPacket = g.astrmPacket
  seqid : v.vstrmSeqid.toNat = p.count % 1024
  resync : v.resyncRequested = p.resync
  source : p.pending.isSome → v.latchedChunks.length > 0 ∨ v.encodingFrame.length > 0

variable {p : Pipeline} {v : VideoStreamer}

theorem streams_create (timestamp : UInt32) :
    Streams Pipeline.create (VideoStreamer.create timestamp) := by
  constructor <;> simp [Pipeline.create, VideoStreamer.create]

/-- Only the residue of the first number counts. -/
theorem frameDatagrams_mod (f : FrameParams) (s : ℕ) (chunks : List (List UInt8)) :
    frameDatagrams f (s % 1024) chunks = frameDatagrams f s chunks := by
  simp [frameDatagrams, datagramsFrom, Nat.mod_add_mod]

theorem ReadAs.length_eq {pkts : List VstrmPacket} {ds : List VstrmDatagram}
    (h : ReadAs pkts ds) : pkts.length = ds.length := by
  simpa using congrArg List.length h

/-- The variables in the middle of a tick, after the pending frame was sent. -/
structure Flushed (p : Pipeline) (v : VideoStreamer) : Prop where
  inited : v.vstrmInited = p.pending.isSome
  packets : v.vstrmPackets = []
  seqid : v.vstrmSeqid.toNat = p.count % 1024
  resync : v.resyncRequested = p.resyncLeft
  source : p.pending.isSome → v.latchedChunks.length > 0 ∨ v.encodingFrame.length > 0

theorem Streams.sendPending (h : Streams p v) :
    Flushed p v.sendPending.1 ∧ v.sendPending.2 = p.sent := by
  cases hp : p.pending with
  | none =>
    have hinit : v.vstrmInited = false := by rw [h.inited, hp]; rfl
    have hsend : v.sendPending = (v, []) := by simp [VideoStreamer.sendPending, hinit]
    rw [hsend]
    refine ⟨⟨h.inited, by rw [h.packets, hp]; rfl, h.seqid, ?_, h.source⟩, ?_⟩
    · simp [Pipeline.resyncLeft, hp, h.resync]
    · simp [Pipeline.sent, hp]
  | some g =>
    obtain ⟨hidr, hastrm⟩ := h.pending g hp
    have hinit : v.vstrmInited = true := by rw [h.inited, hp]; rfl
    have hpackets : v.vstrmPackets = g.packets := by rw [h.packets, hp]; rfl
    rw [VideoStreamer.sendPending, if_pos hinit]
    refine ⟨⟨h.inited, rfl, h.seqid, ?_, h.source⟩, ?_⟩
    · simp only [Pipeline.resyncLeft, hp, hidr, h.resync]
      cases p.resync <;> cases g.params.idr <;> rfl
    · simp [Pipeline.sent, hp, GeneratedFrame.group, hastrm, hpackets]

/-- Latching keeps everything but the two sources, and never empties those. -/
theorem Flushed.latch (h : Flushed p v) :
    Flushed p v.latchOnCurrentChunks.latchOnCurrentFrame := by
  have hc : Flushed p v.latchOnCurrentChunks := by
    unfold VideoStreamer.latchOnCurrentChunks
    split
    · exact { h with source := fun _ => Or.inl (Nat.pos_of_ne_zero ‹_›) }
    · exact h
  unfold VideoStreamer.latchOnCurrentFrame
  split
  · exact { hc with source := fun _ => Or.inr (Nat.pos_of_ne_zero ‹_›) }
  · exact hc

theorem Flushed.currentChunks {encoded : H264ChunkArray} (h : Flushed p v)
    (hnone : v.currentChunks encoded = none) : p.pending = none := by
  unfold VideoStreamer.currentChunks at hnone
  split_ifs at hnone with hchunks hframe
  cases hp : p.pending with
  | none => rfl
  | some g =>
    rcases h.source (by simp [hp]) with hs | hs
    · exact (hchunks hs).elim
    · exact (hframe hs).elim

/-- A frame is generated without a fault, numbered on from the last one. -/
theorem Flushed.generateFrame (h : Flushed p v) (now : UInt32) (encoded : H264ChunkArray) :
    (p.pending = none ∧ v.generateFrame now encoded = .ok (v, [])) ∨
    ∃ v' g, v.generateFrame now encoded = .ok (v', [.generated g]) ∧
      g.Ok p.count p.pending.isNone ∧ g.params.idr = (p.resyncLeft || p.pending.isNone) ∧
      Streams { pending := some g, count := p.count + g.packets.length, resync := false } v' := by
  rw [VideoStreamer.generateFrame]
  have hinit : (!v.vstrmInited) = p.pending.isNone := by
    rw [h.inited]
    cases p.pending <;> rfl
  cases hc : v.currentChunks encoded with
  | none => exact Or.inl ⟨h.currentChunks hc, rfl⟩
  | some chunks =>
    obtain ⟨pkts, seqid', hpkts, hread, hseqid'⟩ := generateVstrmPackets_read [] chunks now
      (v.resyncRequested || !v.vstrmInited) v.vstrmInited v.frameRate
      (by rw [h.seqid]; omega : v.vstrmSeqid.toNat < 1024)
    obtain ⟨astrm, hastrm, hformat⟩ := AstrmPacket.read_generateAstrmPacket now
    have hlen := hread.length_eq
    rw [h.seqid, frameDatagrams_mod] at hread hlen hseqid'
    simp only [h.packets, hpkts, hastrm, bind, Except.bind, List.nil_append, List.length_nil,
      List.drop_zero]
    refine Or.inr ⟨_, _, rfl, ⟨hread, hinit, hformat⟩, ?_, ?_⟩
    · rw [← hinit, h.resync]
    · refine ⟨rfl, rfl, ?_, ?_, rfl, ?_⟩
      · intro g hg
        cases hg
        exact ⟨rfl, rfl⟩
      · rw [hseqid', ← hlen, Nat.mod_add_mod]
      · intro _
        unfold VideoStreamer.currentChunks at hc
        split_ifs at hc with hchunks hframe
        · exact Or.inl hchunks
        · exact Or.inr hframe

theorem Flushed.streams (h : Flushed p v) (hnone : p.pending = none) : Streams p v where
  inited := h.inited
  packets := by rw [h.packets, hnone]; rfl
  pending := by simp [hnone]
  seqid := h.seqid
  resync := by simp [h.resync, Pipeline.resyncLeft, hnone]
  source := h.source

theorem Streams.rearm (h : Streams p v) (later : UInt32) : Streams p (v.rearm later).1 := by
  have hv : (v.rearm later).1 = { v with nextTimestamp := v.nextTimestamp + 16683 } := rfl
  rw [hv]
  exact ⟨h.inited, h.packets, h.pending, h.seqid, h.resync, h.source⟩

theorem tick_eq (later : UInt32) {now : UInt32} {encoded : H264ChunkArray} {v' : VideoStreamer}
    {gen : List StreamOutput}
    (hgen : v.sendPending.1.latchOnCurrentChunks.latchOnCurrentFrame.generateFrame now encoded =
      .ok (v', gen)) : v.tick now later encoded =
        .ok ((v'.rearm later).1, v.sendPending.2 ++ gen ++ (v'.rearm later).2) := by
  simp only [VideoStreamer.tick, hgen, bind, Except.bind]
  rfl

/-- Every way into the loop is a step of the pipeline, and none of them faults. -/
theorem Streams.step (h : Streams p v) (a : StreamAction) :
    ∃ v' out p', StreamStep v a out v' ∧ PipelineStep p a out p' ∧ Streams p' v' := by
  cases a with
  | pushFrame frame => exact ⟨_, _, p, rfl, .push (by simp) (by simp), { h with }⟩
  | pushH264Chunks chunks => exact ⟨_, _, p, rfl, .push (by simp) (by simp), { h with }⟩
  | setFrameRate frameRate => exact ⟨_, _, p, rfl, .push (by simp) (by simp), { h with }⟩
  | resync => exact ⟨_, _, _, rfl, .resync, { h with resync := rfl }⟩
  | tick now later encoded =>
    obtain ⟨hflushed, hsent⟩ := h.sendPending
    have hlatched := hflushed.latch
    rcases hlatched.generateFrame now encoded with ⟨hnone, hgen⟩ | ⟨v', g, hgen, hok, hidr, hs⟩
    · have hnil : p.sent = [] := by rw [Pipeline.sent, hnone]; rfl
      have hstep := tick_eq later hgen
      rw [hsent, hnil] at hstep
      exact ⟨_, _, p, hstep, .idle hnone, (hlatched.streams hnone).rearm later⟩
    · have hstep := tick_eq later hgen
      rw [hsent, List.append_assoc] at hstep
      exact ⟨_, _, _, hstep, .frame hok hidr, hs.rearm later⟩

variable {timestamp : UInt32} {tr : StreamTrace}

/-- The loop refines the pipeline. -/
theorem streamRun_pipeline (hrun : StreamRun timestamp tr v) :
    ∃ p, Steps PipelineStep Pipeline.create tr p ∧ Streams p v := by
  refine Steps.simulate hrun (streams_create timestamp) ?_
  intro p v a out v' hs hstep
  obtain ⟨v'', out', p', hstep', hp, hs'⟩ := hs.step a
  cases hstep.symm.trans hstep'
  exact ⟨p', hp, hs'⟩

/-- Every order of events is run: the loop never faults. -/
theorem streamRun_total (timestamp : UInt32) (actions : List StreamAction) :
    ∃ tr v, StreamRun timestamp tr v ∧ tr.map Prod.fst = actions := by
  obtain ⟨tr, v, hrun, hacts, -⟩ := Steps.total (P := fun v => ∃ p, Streams p v)
    ⟨_, streams_create timestamp⟩ (by
      rintro v a ⟨p, hs⟩
      obtain ⟨v', out, p', hstep, -, hs'⟩ := hs.step a
      exact ⟨out, v', hstep, p', hs'⟩) actions
  exact ⟨tr, v, hrun, hacts⟩

end Pc2Drc
