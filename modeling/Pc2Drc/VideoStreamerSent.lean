import Pc2Drc.VideoPipeline

/-! The structure of the stream the video streamer sends. -/
namespace Pc2Drc
open Lib

def StreamOutput.isDatagram : StreamOutput → Bool
  | .astrm _ | .vstrm _ => true
  | .generated _ | .rearmTimer _ => false

/-- The datagrams of a step, the frames it generated, and the same of a whole run. -/
def sentIn (out : List StreamOutput) : List StreamOutput := out.filter StreamOutput.isDatagram

def generatedIn (out : List StreamOutput) : List GeneratedFrame :=
  out.filterMap fun o => match o with
    | .generated g => some g
    | _ => none

def sentOf (tr : StreamTrace) : List StreamOutput := tr.flatMap fun x => sentIn x.2

def generatedOf (tr : StreamTrace) : List GeneratedFrame := tr.flatMap fun x => generatedIn x.2

/-- The `vstrm` datagrams among what is shown. -/
def vstrmIn (out : List StreamOutput) : List (List UInt8) :=
  out.filterMap fun o => match o with
    | .vstrm bytes => some bytes
    | _ => none

def vstrmSent (tr : StreamTrace) : List (List UInt8) := vstrmIn (sentOf tr)

/-- The frame, and the chunk list, that were pushed last. -/
def pushedFrame (tr : StreamTrace) : List UInt8 :=
  ((tr.filterMap fun
    | (.pushFrame frame, _) => some frame
    | _ => none).getLast?).getD []

def pushedChunks (tr : StreamTrace) : List (List UInt8) :=
  ((tr.filterMap fun
    | (.pushH264Chunks chunks, _) => some chunks
    | _ => none).getLast?).getD []

/-- One of the ticks came when there was something to packetize: of what was pushed last before it,
the frame or the chunk list is not empty. -/
def Fed (tr : StreamTrace) : Prop :=
  ∃ pre now later encoded out, pre ++ [(.tick now later encoded, out)] <+: tr ∧
    (pushedFrame pre ≠ [] ∨ pushedChunks pre ≠ [])

/-- What a tick after `pre` generates: a frame, once something pushed was found at it or before. The
frame has the time of the tick and the chunks that the encoder returned or that were pushed. -/
def Generates (pre : StreamTrace) (now later : UInt32) (encoded : H264ChunkArray)
    (out : List StreamOutput) : Prop :=
  (Fed (pre ++ [(.tick now later encoded, out)]) ∧ ∃ g, generatedIn out = [g] ∧
      g.params.timestamp = now ∧ (g.chunks = encoded ∨ ∃ chunks out', chunks ≠ [] ∧
        (.pushH264Chunks chunks, out') ∈ pre ∧ g.chunks = asChunkArray chunks)) ∨
    ¬ Fed (pre ++ [(.tick now later encoded, out)]) ∧ generatedIn out = []

/-- A frame's packets are its chunks cut in pieces, numbered on from `count`. They carry its
timestamp, as its format packet does, and the init flag if it is the first frame. -/
structure GeneratedFrame.Sent (g : GeneratedFrame) (count : ℕ) (first : Bool) : Prop where
  format : VideoFormat.read g.astrmPacket.getBytes = some ⟨true, g.params.timestamp.toNat⟩
  packets : ∀ pkt ∈ g.packets, ∃ d, VstrmDatagram.read pkt.getBytes = some d ∧
    d.timestamp = some g.params.timestamp.toNat ∧ d.init = first
  init : g.params.init = first
  pieces : ReadAs g.packets (frameDatagrams g.params count g.chunks.toList)

/-- Every tick sends the frame generated last, if there is one, and nothing else is sent; from the
first on that finds something pushed, every tick generates a frame; each frame but the last is sent
once; `vstrm` datagrams are numbered through. -/
structure SentStream (tr : StreamTrace) : Prop where
  tick : ∀ pre now later encoded out post,
    tr = pre ++ (.tick now later encoded, out) :: post →
    sentIn out = ((generatedOf pre).getLast?.map GeneratedFrame.group).getD [] ∧
    (generatedOf pre ≠ [] → ∃ g, generatedIn out = [g])
  generates : ∀ pre now later encoded out post,
    tr = pre ++ (.tick now later encoded, out) :: post → Generates pre now later encoded out
  other : ∀ pre a out post, tr = pre ++ (a, out) :: post →
    (∀ now later encoded, a ≠ .tick now later encoded) → out = []
  once : sentOf tr = (generatedOf tr).dropLast.flatMap GeneratedFrame.group
  frame : ∀ i (g : GeneratedFrame), (generatedOf tr)[i]? = some g →
    g.Sent (((generatedOf tr).take i).flatMap GeneratedFrame.packets).length (i = 0)
  seqId : ∀ i bytes, (vstrmSent tr)[i]? = some bytes →
    ∃ d, VstrmDatagram.read bytes = some d ∧ d.seqId = i % 1024

variable {p p' : Pipeline} {a : StreamAction} {out : List StreamOutput} {g : GeneratedFrame}
  {tr : StreamTrace} {v : VideoStreamer} {timestamp : UInt32}

theorem ReadAs.getElem? {pkts : List VstrmPacket} {ds : List VstrmDatagram} {j : ℕ}
    {pkt : VstrmPacket} (h : ReadAs pkts ds) (hp : pkts[j]? = some pkt) :
    ∃ d, ds[j]? = some d ∧ VstrmDatagram.read pkt.getBytes = some d := by
  have hj := congrArg (·[j]?) h
  simp only [List.getElem?_map, hp, Option.map_some] at hj
  obtain ⟨d, hd, heq⟩ := Option.map_eq_some_iff.mp hj.symm
  exact ⟨d, hd, heq.symm⟩

/-- Packet `j` of a frame that starts at number `count`. -/
theorem GeneratedFrame.Ok.read {count j : ℕ} {first : Bool} {pkt : VstrmPacket}
    (h : g.Ok count first) (hp : g.packets[j]? = some pkt) :
    ∃ d, VstrmDatagram.read pkt.getBytes = some d ∧ d.seqId = (count + j) % 1024 ∧
      d.timestamp = some g.params.timestamp.toNat ∧ d.init = first ∧
      d.extHeader = extOptions g.params.idr g.params.frameRate := by
  obtain ⟨d, hd, hread⟩ := h.packets.getElem? hp
  obtain ⟨piece, -, rfl⟩ := getElem?_frameDatagrams hd
  exact ⟨_, hread, rfl, rfl, h.init, rfl⟩

theorem GeneratedFrame.Ok.sent {count : ℕ} {first : Bool} (h : g.Ok count first) :
    g.Sent count first where
  format := h.format
  init := h.init
  pieces := h.packets
  packets := by
    intro pkt hpkt
    obtain ⟨j, hj⟩ := List.mem_iff_getElem?.mp hpkt
    obtain ⟨d, hread, -, hts, hinit, -⟩ := h.read hj
    exact ⟨d, hread, hts, hinit⟩

@[simp]
theorem sentIn_group (g : GeneratedFrame) : sentIn g.group = g.group := by
  rw [sentIn, List.filter_eq_self]
  intro o ho
  rcases List.mem_cons.mp ho with rfl | ho
  · rfl
  · obtain ⟨pkt, -, rfl⟩ := List.mem_map.mp ho
    rfl

@[simp]
theorem generatedIn_group (g : GeneratedFrame) : generatedIn g.group = [] := by
  rw [generatedIn, List.filterMap_eq_nil_iff]
  intro o ho
  rcases List.mem_cons.mp ho with rfl | ho
  · rfl
  · obtain ⟨pkt, -, rfl⟩ := List.mem_map.mp ho
    rfl

@[simp]
theorem vstrmIn_group (g : GeneratedFrame) :
    vstrmIn g.group = g.packets.map VstrmPacket.getBytes := by
  simp [vstrmIn, GeneratedFrame.group, List.filterMap_map]

theorem vstrmIn_append (out out' : List StreamOutput) :
    vstrmIn (out ++ out') = vstrmIn out ++ vstrmIn out' := List.filterMap_append

theorem sentIn_sent (p : Pipeline) : sentIn p.sent = p.sent := by
  unfold Pipeline.sent
  cases p.pending with
  | none => rfl
  | some g => exact sentIn_group g

theorem generatedIn_sent (p : Pipeline) : generatedIn p.sent = [] := by
  unfold Pipeline.sent
  cases p.pending with
  | none => rfl
  | some g => exact generatedIn_group g

/-- What a step shows, in terms of the pipeline. -/
theorem PipelineStep.shows (hs : PipelineStep p a out p') :
    (out = [] ∧ generatedIn out = [] ∧ p'.pending = p.pending ∧ p'.count = p.count ∧
      ∀ now later encoded, a ≠ .tick now later encoded) ∨
    (sentIn out = p.sent ∧ p.pending = none ∧ generatedIn out = [] ∧ p' = p ∧
      ∃ now later encoded, a = .tick now later encoded) ∨
    (∃ g, sentIn out = p.sent ∧ generatedIn out = [g] ∧ g.Ok p.count p.pending.isNone ∧
      p'.pending = some g ∧ p'.count = p.count + g.packets.length ∧
      ∃ now later encoded, a = .tick now later encoded) := by
  cases hs with
  | push hne _ => exact Or.inl ⟨rfl, rfl, rfl, rfl, hne⟩
  | resync => exact Or.inl ⟨rfl, rfl, rfl, rfl, by simp⟩
  | idle hnone =>
    have hsent : p.sent = [] := by rw [Pipeline.sent, hnone]; rfl
    exact Or.inr (Or.inl ⟨by rw [hsent]; rfl, hnone, rfl, rfl, _, _, _, rfl⟩)
  | @frame now later encoded ns g hok _ =>
    refine Or.inr (Or.inr ⟨g, ?_, ?_, hok, rfl, rfl, _, _, _, rfl⟩)
    · rw [sentIn, List.filter_append]
      exact (congrArg (· ++ []) (sentIn_sent p)).trans (List.append_nil _)
    · rw [generatedIn, List.filterMap_append]
      exact (congrArg (· ++ [g]) (generatedIn_sent p))

/-- What the pipeline holds, in terms of the run that led to it. -/
structure PipelineHist (tr : StreamTrace) (p : Pipeline) : Prop where
  pending_eq : p.pending = (generatedOf tr).getLast?
  count_eq : p.count = ((generatedOf tr).flatMap GeneratedFrame.packets).length
  sent_eq : sentOf tr = (generatedOf tr).dropLast.flatMap GeneratedFrame.group
  frame : ∀ i (g : GeneratedFrame), (generatedOf tr)[i]? = some g →
    g.Sent (((generatedOf tr).take i).flatMap GeneratedFrame.packets).length (i = 0)
  seqId : ∀ i pkt, ((generatedOf tr).flatMap GeneratedFrame.packets)[i]? = some pkt →
    ∃ d, VstrmDatagram.read pkt.getBytes = some d ∧ d.seqId = i % 1024

theorem sentOf_snoc : sentOf (tr ++ [(a, out)]) = sentOf tr ++ sentIn out := by
  simp [sentOf]

theorem generatedOf_snoc : generatedOf (tr ++ [(a, out)]) = generatedOf tr ++ generatedIn out := by
  simp [generatedOf]

/-- The frames sent before a tick and the one it sends are all that were generated before. -/
theorem PipelineHist.sent_all (hh : PipelineHist tr p) :
    sentOf tr ++ p.sent = (generatedOf tr).flatMap GeneratedFrame.group := by
  rw [hh.sent_eq, Pipeline.sent, hh.pending_eq]
  cases h : (generatedOf tr).getLast? with
  | none => simp [List.getLast?_eq_none_iff.mp h]
  | some g =>
    obtain ⟨gs, hgs⟩ := List.getLast?_eq_some_iff.mp h
    simp [hgs]

/-- A step that neither sends nor generates changes nothing. -/
theorem PipelineHist.silent (hh : PipelineHist tr p) (hgen : generatedIn out = [])
    (hsent : sentIn out = []) (hp : p'.pending = p.pending) (hc : p'.count = p.count) :
    PipelineHist (tr ++ [(a, out)]) p' := by
  have hg : generatedOf (tr ++ [(a, out)]) = generatedOf tr := by
    rw [generatedOf_snoc, hgen, List.append_nil]
  have hs : sentOf (tr ++ [(a, out)]) = sentOf tr := by
    rw [sentOf_snoc, hsent, List.append_nil]
  constructor
  · rw [hg, hp, hh.pending_eq]
  · rw [hg, hc, hh.count_eq]
  · rw [hg, hs, hh.sent_eq]
  · rw [hg]
    exact hh.frame
  · rw [hg]
    exact hh.seqId

/-- A tick that sends what is pending and generates the next frame. -/
theorem PipelineHist.frame_step (hh : PipelineHist tr p) (hgen : generatedIn out = [g])
    (hsent : sentIn out = p.sent) (hok : g.Ok p.count p.pending.isNone)
    (hp : p'.pending = some g) (hc : p'.count = p.count + g.packets.length) :
    PipelineHist (tr ++ [(a, out)]) p' := by
  have hg : generatedOf (tr ++ [(a, out)]) = generatedOf tr ++ [g] := by
    rw [generatedOf_snoc, hgen]
  have hfirst : p.pending.isNone = decide ((generatedOf tr).length = 0) := by
    rw [hh.pending_eq]
    cases generatedOf tr using List.reverseRecOn <;> simp
  constructor
  · rw [hg, hp, List.getLast?_concat]
  · rw [hg, hc, hh.count_eq]
    simp
  · rw [hg, sentOf_snoc, hsent, hh.sent_all, List.dropLast_concat]
  · intro i g' hi
    rw [hg] at hi ⊢
    rcases getElem?_snoc hi with hold | ⟨rfl, rfl⟩
    · have hlen := (List.getElem?_eq_some_iff.mp hold).1
      rw [List.take_append_of_le_length hlen.le]
      exact hh.frame i g' hold
    · rw [List.take_left, ← hh.count_eq, ← hfirst]
      exact hok.sent
  · intro i pkt hi
    rw [hg, List.flatMap_append, List.getElem?_append] at hi
    split at hi
    · exact hh.seqId i pkt hi
    · rename_i hge
      rw [List.flatMap_singleton, ← hh.count_eq] at hi
      rw [← hh.count_eq] at hge
      obtain ⟨d, hread, hseq, -⟩ := hok.read hi
      exact ⟨d, hread, by rw [hseq]; congr 1; omega⟩

theorem pipelineHist_step (hh : PipelineHist tr p) (hs : PipelineStep p a out p') :
    PipelineHist (tr ++ [(a, out)]) p' := by
  rcases hs.shows with ⟨rfl, hgen, hp, hc, -⟩ | ⟨hsent, hnone, hgen, heq, -⟩ |
    ⟨g, hsent, hgen, hok, hp, hc, -⟩
  · exact hh.silent hgen rfl hp hc
  · have hnil : p.sent = [] := by rw [Pipeline.sent, hnone]; rfl
    exact hh.silent hgen (hsent.trans hnil) (by rw [heq]) (by rw [heq])
  · exact hh.frame_step hgen hsent hok hp hc

theorem pipelineHist_run (hrun : Steps PipelineStep Pipeline.create tr p) : PipelineHist tr p := by
  refine Steps.invariant hrun ?_ (fun _ _ _ _ _ hh hs => pipelineHist_step hh hs)
  constructor <;> simp [Pipeline.create, generatedOf, sentOf]

theorem PipelineHist.vstrmSent (hh : PipelineHist tr p) : vstrmSent tr =
    ((generatedOf tr).dropLast.flatMap GeneratedFrame.packets).map VstrmPacket.getBytes := by
  rw [Pc2Drc.vstrmSent, hh.sent_eq]
  induction (generatedOf tr).dropLast with
  | nil => rfl
  | cons g gs ih =>
    rw [List.flatMap_cons, vstrmIn_append, ih, vstrmIn_group, List.flatMap_cons, List.map_append]

theorem generatedIn_append (out out' : List StreamOutput) :
    generatedIn (out ++ out') = generatedIn out ++ generatedIn out' := List.filterMap_append

theorem generatedIn_sendPending (v : VideoStreamer) : generatedIn v.sendPending.2 = [] := by
  by_cases h : v.vstrmInited = true
  · rw [VideoStreamer.sendPending, if_pos h]
    simp [generatedIn, List.filterMap_map]
  · rw [VideoStreamer.sendPending, if_neg h]
    rfl

section Feeding

variable {v' : VideoStreamer} {now later : UInt32} {encoded : H264ChunkArray}

/-- A tick latches the slots and packetizes the current chunks. -/
theorem tick_slots (h : v.tick now later encoded = .ok (v', out)) :
    v'.frame = v.latched.frame ∧ v'.h264Chunks = v.latched.h264Chunks ∧
      v'.latchedChunks = v.latched.latchedChunks ∧ v'.encodingFrame = v.latched.encodingFrame ∧
      (v.latched.currentChunks encoded = none ∧ generatedIn out = [] ∨
        ∃ g, v.latched.currentChunks encoded = some g.chunks ∧ g.params.timestamp = now ∧
          generatedIn out = [g]) := by
  obtain ⟨u, gen, hgen, rfl, rfl⟩ := VideoStreamer.tick_inv h
  obtain ⟨hf, hc, hl, he, -, hcases⟩ := VideoStreamer.generateFrame_inv hgen
  have htimer : generatedIn (u.rearm later).2 = [] := rfl
  have hout : generatedIn (v.sendPending.2 ++ gen ++ (u.rearm later).2) = generatedIn gen := by
    rw [generatedIn_append, generatedIn_append, generatedIn_sendPending, htimer, List.nil_append,
      List.append_nil]
  have hsource : (u.rearm later).1 = { u with nextTimestamp := u.nextTimestamp + 16683 } := rfl
  rw [hsource]
  refine ⟨hf, hc, hl, he, ?_⟩
  rcases hcases with ⟨hnone, rfl⟩ | ⟨g, hsome, hnow, rfl⟩
  · exact Or.inl ⟨hnone, hout⟩
  · exact Or.inr ⟨g, hsome, hnow, hout⟩

theorem fed_tick : Fed (tr ++ [(.tick now later encoded, out)]) ↔
    Fed tr ∨ pushedFrame tr ≠ [] ∨ pushedChunks tr ≠ [] := by
  constructor
  · rintro ⟨pre, now', later', encoded', out', hpre, hpushed⟩
    rcases List.prefix_concat_iff.mp hpre with heq | hpre
    · obtain rfl := List.append_inj_left' heq rfl
      exact Or.inr hpushed
    · exact Or.inl ⟨pre, now', later', encoded', out', hpre, hpushed⟩
  · rintro (⟨pre, now', later', encoded', out', hpre, hpushed⟩ | hpushed)
    · exact ⟨pre, now', later', encoded', out', hpre.trans (List.prefix_append _ _), hpushed⟩
    · exact ⟨tr, now, later, encoded, out, List.prefix_refl _, hpushed⟩

theorem fed_of_not_tick (hne : ∀ now later encoded, a ≠ .tick now later encoded) :
    Fed (tr ++ [(a, out)]) ↔ Fed tr := by
  constructor
  · rintro ⟨pre, now', later', encoded', out', hpre, hpushed⟩
    rcases List.prefix_concat_iff.mp hpre with heq | hpre
    · obtain ⟨-, hlast⟩ := List.append_inj' heq rfl
      exact (hne _ _ _ (Prod.mk.inj (List.singleton_inj.mp hlast)).1.symm).elim
    · exact ⟨pre, now', later', encoded', out', hpre, hpushed⟩
  · rintro ⟨pre, now', later', encoded', out', hpre, hpushed⟩
    exact ⟨pre, now', later', encoded', out', hpre.trans (List.prefix_append _ _), hpushed⟩

/-- A slot holds what was pushed last, until a tick takes it. -/
structure Slot {α : Type} (slot pushed : List α) (fed : Prop) : Prop where
  last : slot ≠ [] → slot = pushed
  kept : pushed ≠ [] → slot ≠ [] ∨ fed

theorem Slot.push {α : Type} (pushed : List α) (fed : Prop) : Slot pushed pushed fed where
  last _ := rfl
  kept := Or.inl

/-- The variables against what was pushed; the latched copies are empty until a tick finds
something. -/
structure FedInv (tr : StreamTrace) (v : VideoStreamer) : Prop where
  frame : Slot v.frame (pushedFrame tr) (Fed tr)
  chunks : Slot v.h264Chunks (pushedChunks tr) (Fed tr)
  latched : v.latchedChunks ≠ [] ∨ v.encodingFrame ≠ [] ↔ Fed tr
  pushed : ∀ chunks, chunks = v.h264Chunks ∨ chunks = v.latchedChunks → chunks ≠ [] →
    ∃ out, (.pushH264Chunks chunks, out) ∈ tr
  generated : generatedOf tr ≠ [] ↔ Fed tr

theorem pushedFrame_snoc (tr : StreamTrace) (a : StreamAction) (out : List StreamOutput) :
    pushedFrame (tr ++ [(a, out)]) = match a with
      | .pushFrame frame => frame
      | _ => pushedFrame tr := by
  cases a <;> simp [pushedFrame]

theorem pushedChunks_snoc (tr : StreamTrace) (a : StreamAction) (out : List StreamOutput) :
    pushedChunks (tr ++ [(a, out)]) = match a with
      | .pushH264Chunks chunks => chunks
      | _ => pushedChunks tr := by
  cases a <;> simp [pushedChunks]

/-- A step that is not a tick fills a slot at most. -/
theorem FedInv.push (h : FedInv tr v) (hs : StreamStep v a out v')
    (hne : ∀ now later encoded, a ≠ .tick now later encoded) :
    FedInv (tr ++ [(a, out)]) v' := by
  have hframe : Slot v'.frame (pushedFrame (tr ++ [(a, out)])) (Fed tr) := by
    rw [pushedFrame_snoc]
    cases a with
    | tick => exact (hne _ _ _ rfl).elim
    | pushFrame => cases hs; exact .push _ _
    | _ => cases hs; exact h.frame
  have hchunks : Slot v'.h264Chunks (pushedChunks (tr ++ [(a, out)])) (Fed tr) := by
    rw [pushedChunks_snoc]
    cases a with
    | tick => exact (hne _ _ _ rfl).elim
    | pushH264Chunks => cases hs; exact .push _ _
    | _ => cases hs; exact h.chunks
  have hcopies : v'.latchedChunks = v.latchedChunks ∧ v'.encodingFrame = v.encodingFrame ∧
      generatedIn out = [] := by
    cases a with
    | tick => exact (hne _ _ _ rfl).elim
    | _ => cases hs; exact ⟨rfl, rfl, rfl⟩
  obtain ⟨hlatched, hencoding, hgen⟩ := hcopies
  have hfed : Fed (tr ++ [(a, out)]) ↔ Fed tr := fed_of_not_tick hne
  refine ⟨?_, ?_, ?_, ?_, ?_⟩
  · rw [hfed]
    exact hframe
  · rw [hfed]
    exact hchunks
  · rw [hlatched, hencoding, hfed]
    exact h.latched
  · rw [hlatched]
    rintro chunks hc hn
    have hold : (∃ out, (.pushH264Chunks chunks, out) ∈ tr) →
        ∃ out', (.pushH264Chunks chunks, out') ∈ tr ++ [(a, out)] :=
      fun ⟨out', h⟩ => ⟨out', List.mem_append_left _ h⟩
    cases a with
    | tick => exact (hne _ _ _ rfl).elim
    | pushH264Chunks pushed =>
      cases hs
      rcases hc with rfl | hc
      · exact ⟨[], by simp⟩
      · exact hold (h.pushed chunks (Or.inr hc) hn)
    | _ =>
      cases hs
      exact hold (h.pushed chunks hc hn)
  · rw [generatedOf_snoc, hgen, List.append_nil, hfed]
    exact h.generated

/-- A tick finds something to packetize exactly if it or an earlier one found something pushed. -/
theorem FedInv.latched_iff (h : FedInv tr v) :
    v.latched.latchedChunks ≠ [] ∨ v.latched.encodingFrame ≠ [] ↔
      Fed (tr ++ [(.tick now later encoded, out)]) := by
  obtain ⟨-, -, hlatched, hencoding⟩ := v.latched_slots
  have hold := h.latched
  have hframe := h.frame.last
  have hframe' := h.frame.kept
  have hchunks := h.chunks.last
  have hchunks' := h.chunks.kept
  rw [hlatched, hencoding, fed_tick]
  grind

theorem FedInv.pushed_latched (h : FedInv tr v) (hne : v.latched.latchedChunks ≠ []) :
    ∃ out, (.pushH264Chunks v.latched.latchedChunks, out) ∈ tr := by
  obtain ⟨-, -, hlatched, -⟩ := v.latched_slots
  refine h.pushed _ ?_ hne
  rw [hlatched]
  split_ifs
  · exact Or.inr rfl
  · exact Or.inl rfl

/-- A tick that finds something, or comes after one that did, generates a frame. -/
theorem FedInv.generates (h : FedInv tr v)
    (hs : StreamStep v (.tick now later encoded) out v') : Generates tr now later encoded out := by
  obtain ⟨-, -, -, -, hcases⟩ := tick_slots hs
  have hfed : _ ↔ Fed (tr ++ [(.tick now later encoded, out)]) := h.latched_iff
  rcases v.latched.currentChunks_cases encoded with ⟨hne, hcur⟩ | ⟨-, hne, hcur⟩ |
    ⟨hnil, hnil', hcur⟩
  · rcases hcases with ⟨hnone, -⟩ | ⟨g, hsome, hnow, hgen⟩
    · cases hnone.symm.trans hcur
    · obtain ⟨out', hmem⟩ := h.pushed_latched hne
      have hchunks := Option.some.inj (hsome.symm.trans hcur)
      exact Or.inl ⟨hfed.mp (Or.inl hne), g, hgen, hnow, Or.inr ⟨_, out', hne, hmem, hchunks⟩⟩
  · rcases hcases with ⟨hnone, -⟩ | ⟨g, hsome, hnow, hgen⟩
    · cases hnone.symm.trans hcur
    · have hchunks := Option.some.inj (hsome.symm.trans hcur)
      exact Or.inl ⟨hfed.mp (Or.inr hne), g, hgen, hnow, Or.inl hchunks⟩
  · rcases hcases with ⟨-, hgen⟩ | ⟨g, hsome, -⟩
    · exact Or.inr ⟨fun h => (hfed.mpr h).elim (· hnil) (· hnil'), hgen⟩
    · cases hsome.symm.trans hcur

theorem FedInv.tick (h : FedInv tr v) (hs : StreamStep v (.tick now later encoded) out v') :
    FedInv (tr ++ [(.tick now later encoded, out)]) v' := by
  obtain ⟨hf, hc, hl, he, -⟩ := tick_slots hs
  obtain ⟨hframe, hchunks, -, -⟩ := v.latched_slots
  refine ⟨?_, ?_, ?_, ?_, ?_⟩
  · rw [hf, hframe, pushedFrame_snoc]
    exact ⟨fun hn => (hn rfl).elim, fun hn => Or.inr (fed_tick.mpr (Or.inr (Or.inl hn)))⟩
  · rw [hc, hchunks, pushedChunks_snoc]
    exact ⟨fun hn => (hn rfl).elim, fun hn => Or.inr (fed_tick.mpr (Or.inr (Or.inr hn)))⟩
  · rw [hl, he]
    exact h.latched_iff
  · rintro chunks (rfl | rfl) hn
    · exact (hn (hc.trans hchunks)).elim
    · rw [hl] at hn ⊢
      obtain ⟨out', hmem⟩ := h.pushed_latched hn
      exact ⟨out', List.mem_append_left _ hmem⟩
  · rw [generatedOf_snoc]
    rcases h.generates hs with ⟨hfed, g, hg, -⟩ | ⟨hfed, hg⟩
    · simp [hg, hfed]
    · rw [hg, List.append_nil]
      have hold : ¬ Fed tr := fun hold => hfed (fed_tick.mpr (Or.inl hold))
      exact iff_of_false (fun hn => hold (h.generated.mp hn)) hfed

theorem fedInv_run (hrun : StreamRun timestamp tr v) : FedInv tr v := by
  refine Steps.invariant (P := FedInv) hrun ?_ ?_
  · have hfed : ¬ Fed [] := by
      rintro ⟨pre, now, later, encoded, out, hpre, -⟩
      simp at hpre
    refine ⟨.push _ _, .push _ _, ?_, ?_, ?_⟩
    · exact iff_of_false (by simp [VideoStreamer.create]) hfed
    · rintro chunks (rfl | rfl) hn <;> exact (hn rfl).elim
    · exact iff_of_false (by simp [generatedOf]) hfed
  · intro tr v a out v' h hs
    cases a with
    | tick now later encoded => exact h.tick hs
    | _ => exact h.push hs (by simp)

end Feeding

/-- The datagrams of every run are groups of one format packet and one frame, one group a tick
once a frame was generated. -/
theorem sent_stream (hrun : StreamRun timestamp tr v) : SentStream tr := by
  obtain ⟨p, hp, -⟩ := streamRun_pipeline hrun
  have hh := pipelineHist_run hp
  refine ⟨?_, ?_, ?_, hh.sent_eq, hh.frame, ?_⟩
  · rintro pre now later encoded out post rfl
    obtain ⟨p₁, p₂, hpre, hstep, -⟩ := Steps.split hp
    have hpending := (pipelineHist_run hpre).pending_eq
    rw [← hpending]
    rcases hstep.shows with ⟨-, -, -, -, hne⟩ | ⟨hsent, hnone, -⟩ | ⟨g, hsent, hgen, -⟩
    · exact (hne now later encoded rfl).elim
    · refine ⟨hsent, fun hgen => (hgen ?_).elim⟩
      exact List.getLast?_eq_none_iff.mp (hpending.symm.trans hnone)
    · exact ⟨hsent, fun _ => ⟨g, hgen⟩⟩
  · rintro pre now later encoded out post rfl
    obtain ⟨v₁, v₂, hpre, hstep, -⟩ := Steps.split hrun
    exact (fedInv_run hpre).generates hstep
  · rintro pre a out post rfl hne
    obtain ⟨p₁, p₂, -, hstep, -⟩ := Steps.split hp
    rcases hstep.shows with ⟨rfl, -⟩ | ⟨-, -, -, -, now, later, encoded, ha⟩ |
      ⟨g, -, -, -, -, -, now, later, encoded, ha⟩
    · rfl
    · exact (hne now later encoded ha).elim
    · exact (hne now later encoded ha).elim
  · intro i bytes hi
    rw [hh.vstrmSent, List.getElem?_map, Option.map_eq_some_iff] at hi
    obtain ⟨pkt, hpkt, rfl⟩ := hi
    -- what was sent is the beginning of what was generated
    obtain ⟨rest, hrest⟩ := List.dropLast_prefix (generatedOf tr)
    refine hh.seqId i pkt ?_
    rw [← hrest, List.flatMap_append,
      List.getElem?_append_left (List.getElem?_eq_some_iff.mp hpkt).1, hpkt]

theorem pieces_oneChunk :
    (asChunkArray [[7]]).toList.flatMap (pieces kMaxVstrmPayloadSize) =
      [(true, [7]), (true, []), (true, []), (true, []), (true, [])] := by
  have hchunks : (asChunkArray [[7]]).toList = [[7], [], [], [], []] := by decide
  rw [hchunks]
  simp [pieces_last]

/-- The theorem at a pushed frame and two ticks: the first generates, the second sends a packet for
each chunk of the first. -/
theorem sent_stream_two_ticks : ∃ tr v format, ∃ pkts : List (List UInt8), StreamRun 0 tr v ∧
    tr.map Prod.fst = [.pushFrame [1], .tick 5 6 (asChunkArray [[7]]),
      .tick 16690 16691 (asChunkArray [[8]])] ∧ SentStream tr ∧
    sentOf tr = .astrm format :: pkts.map .vstrm ∧ VideoFormat.read format = some ⟨true, 5⟩ ∧
    pkts.map (fun bytes => (VstrmDatagram.read bytes).map fun d =>
        (d.seqId, d.init, d.timestamp, d.payload)) =
      [some (0, true, some 5, [7]), some (1, true, some 5, []), some (2, true, some 5, []),
        some (3, true, some 5, []), some (4, true, some 5, [])] := by
  obtain ⟨tr, v, hrun, hacts⟩ := streamRun_total 0
    [.pushFrame [1], .tick 5 6 (asChunkArray [[7]]), .tick 16690 16691 (asChunkArray [[8]])]
  have hsent := sent_stream hrun
  obtain ⟨⟨a₁, o₁⟩, tr₁, rfl, rfl, htr₁⟩ := List.map_eq_cons_iff.mp hacts
  obtain ⟨⟨a₂, o₂⟩, tr₂, rfl, rfl, htr₂⟩ := List.map_eq_cons_iff.mp htr₁
  obtain ⟨⟨a₃, o₃⟩, tr₃, rfl, rfl, htr₃⟩ := List.map_eq_cons_iff.mp htr₂
  obtain rfl := List.map_eq_nil_iff.mp htr₃
  obtain rfl := hsent.other [] _ o₁ _ rfl (by simp)
  have hpushed : pushedFrame [(.pushFrame [1], [])] ≠ [] := List.cons_ne_nil 1 []
  have hfed : Fed ([(.pushFrame [1], [])] ++ [(.tick 5 6 (asChunkArray [[7]]), o₂)]) :=
    fed_tick.mpr (Or.inr (Or.inl hpushed))
  rcases hsent.generates [_] 5 6 _ o₂ _ rfl with ⟨-, g, hg, hnow, hchunks⟩ | ⟨hnot, -⟩
  · have hg₁ : g.chunks = asChunkArray [[7]] := by
      rcases hchunks with h | ⟨chunks, out', -, hmem, -⟩
      · exact h
      · simp at hmem
    rcases hsent.generates [_, _] 16690 16691 _ o₃ _ rfl with ⟨-, g', hg', -⟩ | ⟨hnot, -⟩
    · have hgen : generatedOf [(.pushFrame [1], []), (.tick 5 6 (asChunkArray [[7]]), o₂),
          (.tick 16690 16691 (asChunkArray [[8]]), o₃)] = [g, g'] := by
        simp only [generatedOf, List.flatMap_cons, List.flatMap_nil, hg, hg']
        rfl
      have hgroup := hsent.once
      have hframe : g.Sent _ true := hsent.frame 0 g (by rw [hgen]; rfl)
      rw [hgen] at hgroup
      refine ⟨_, v, g.astrmPacket.getBytes, g.packets.map VstrmPacket.getBytes, hrun, rfl, hsent,
        ?_, ?_, ?_⟩
      · rw [hgroup, List.map_map]
        exact List.append_nil _
      · rw [hframe.format, hnow]
        rfl
      · have hread := congrArg (List.map (Option.map fun d : VstrmDatagram =>
          (d.seqId, d.init, d.timestamp, d.payload))) hframe.pieces
        rw [List.map_map] at hread ⊢
        refine hread.trans ?_
        simp only [frameDatagrams, hg₁, pieces_oneChunk]
        simp [datagramsFrom, FrameParams.datagram, hframe.init, hnow]
    · exact (hnot (fed_tick.mpr (Or.inl hfed))).elim
  · exact (hnot hfed).elim

end Pc2Drc
