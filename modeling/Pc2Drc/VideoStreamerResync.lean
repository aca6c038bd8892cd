import Mathlib.Data.List.Chain
import Pc2Drc.VideoStreamerSent

/-! Resync requests and IDR frames over a run of the video streamer. -/
namespace Pc2Drc
open Lib

/-- The IDR option of a sent `vstrm` datagram. -/
def idrFlagged (bytes : List UInt8) : Bool :=
  match VstrmDatagram.read bytes with
  | none => false
  | some d => d.extHeader.contains .idr

/-- The frame a step transmits, if any, by the IDR option of all its datagrams. -/
def transmitted (out : List StreamOutput) : Option Bool :=
  if (vstrmIn out).isEmpty then none else some ((vstrmIn out).all idrFlagged)

inductive StreamEvent
  | resync
  | frame (idr : Bool)
  deriving DecidableEq, Repr

/-- Handled resync events and transmitted frames in the order they happen. -/
def eventsOf : StreamAction × List StreamOutput → List StreamEvent
  | (.resync, _) => [.resync]
  | (.tick _ _ _, out) => (transmitted out).toList.map .frame
  | _ => []

def timeline (tr : StreamTrace) : List StreamEvent := tr.flatMap eventsOf

def framesOf (tl : List StreamEvent) : List Bool :=
  tl.filterMap fun e => match e with
    | .resync => none
    | .frame idr => some idr

/-- Of the first two frames after a request one is an IDR frame, no two IDR frames follow each
other, and between any two of them there is a request. -/
structure ResyncServed (tl : List StreamEvent) : Prop where
  served : ∀ pre post : List StreamEvent, tl = pre ++ .resync :: post →
    2 ≤ (framesOf post).length → true ∈ (framesOf post).take 2
  notWasted : (framesOf tl).IsChain fun b b' => ¬ (b = true ∧ b' = true)
  requested : ∀ pre mid post : List StreamEvent,
    tl = pre ++ .frame true :: mid ++ .frame true :: post → .resync ∈ mid

/-- From the tick after the first that finds something to packetize, every tick transmits a frame,
and all datagrams of a frame show its flag. -/
structure TicksTransmit (tr : StreamTrace) : Prop where
  frame : ∀ pre now later encoded out post,
    tr = pre ++ (.tick now later encoded, out) :: post →
    ((transmitted out).isSome = true ↔ Fed pre)
  flag : ∀ pre now later encoded out post,
    tr = pre ++ (.tick now later encoded, out) :: post →
    ∀ bytes ∈ vstrmIn out, transmitted out = some (idrFlagged bytes)

/-- Whether a request is still to be met, by the frames after it and the pending one. -/
def Served (frames : List Bool) (pending : Option Bool) (resync : Bool) : Prop :=
  match frames with
  | [] => resync = true ∨ pending = some true
  | [b] => b = true ∨ pending = some true
  | b :: b' :: _ => b = true ∨ b' = true

/-- The timeline against the flag of the pending frame and the request. -/
structure IdrInv (tl : List StreamEvent) (pending : Option Bool) (resync : Bool) : Prop where
  chain : (framesOf tl ++ pending.toList).IsChain fun b b' => ¬ (b = true ∧ b' = true)
  first : pending = none → framesOf tl = []
  served : ∀ pre post : List StreamEvent, tl = pre ++ .resync :: post →
    Served (framesOf post) pending resync
  next : ∀ pre post : List StreamEvent, tl = pre ++ .frame true :: post →
    .resync ∈ post ∨ resync = false ∧ pending ≠ some true
  requested : ∀ pre mid post : List StreamEvent,
    tl = pre ++ .frame true :: mid ++ .frame true :: post → .resync ∈ mid

variable {tl : List StreamEvent} {pending : Option Bool} {resync b : Bool}

theorem framesOf_append (tl tl' : List StreamEvent) :
    framesOf (tl ++ tl') = framesOf tl ++ framesOf tl' := List.filterMap_append

theorem framesOf_frame (tl : List StreamEvent) (b : Bool) :
    framesOf (tl ++ [.frame b]) = framesOf tl ++ [b] := framesOf_append tl [.frame b]

theorem framesOf_resync (tl : List StreamEvent) : framesOf (tl ++ [.resync]) = framesOf tl :=
  (framesOf_append tl [.resync]).trans (List.append_nil _)

theorem IdrInv.resync_step (h : IdrInv tl pending resync) :
    IdrInv (tl ++ [.resync]) pending true := by
  refine ⟨by rw [framesOf_resync]; exact h.chain, by rw [framesOf_resync]; exact h.first,
    ?_, ?_, ?_⟩
  · intro pre post htl
    rcases snoc_eq_split htl with ⟨rfl, rfl, -⟩ | ⟨post', rfl, htl'⟩
    · exact Or.inl rfl
    · have hs := h.served pre post' htl'
      rw [framesOf_resync]
      cases hpost : framesOf post' with
      | nil => exact Or.inl rfl
      | cons c rest =>
        rw [hpost] at hs
        cases rest <;> exact hs
  · intro pre post htl
    rcases snoc_eq_split htl with ⟨-, -, hx⟩ | ⟨post', rfl, -⟩
    · cases hx
    · exact Or.inl (by simp)
  · intro pre mid post htl
    rcases snoc_eq_split htl with ⟨-, -, hx⟩ | ⟨post', -, htl'⟩
    · cases hx
    · exact h.requested pre mid post' htl'

/-- The first frame is an IDR frame. -/
theorem IdrInv.first_step (h : IdrInv tl none resync) : IdrInv tl (some true) false := by
  have hnil := h.first rfl
  have hno : ∀ pre post, tl ≠ pre ++ .frame true :: post := by
    rintro pre post rfl
    simp [framesOf] at hnil
  refine ⟨?_, by simp, ?_, ?_, h.requested⟩
  · rw [hnil]
    exact List.isChain_singleton _
  · rintro pre post rfl
    have hpost : framesOf post = [] := by
      rw [framesOf_append] at hnil
      exact (List.append_eq_nil_iff.mp hnil).2
    rw [hpost]
    exact Or.inr rfl
  · intro pre post htl
    exact (hno pre post htl).elim

/-- The pending frame goes out and a request that it does not meet makes the next one IDR. -/
theorem IdrInv.frame_step (h : IdrInv tl (some b) resync) :
    IdrInv (tl ++ [.frame b]) (some (resync && !b)) false := by
  refine ⟨?_, by simp, ?_, ?_, ?_⟩
  · rw [framesOf_frame]
    refine List.isChain_append.mpr ⟨h.chain, List.isChain_singleton _, ?_⟩
    rintro b' hb' c hc ⟨rfl, rfl⟩
    rw [List.getLast?_concat] at hb'
    cases hb'
    simp at hc
  · intro pre post htl
    rcases snoc_eq_split htl with ⟨-, -, hx⟩ | ⟨post', rfl, htl'⟩
    · cases hx
    · have hs := h.served pre post' htl'
      rw [framesOf_frame]
      unfold Served at hs
      split at hs
      · rename_i hpost
        rw [hpost]
        cases b <;> simp_all [Served]
      · rename_i c hpost
        rw [hpost]
        simpa [Served] using hs
      · rename_i c c' rest hpost
        rw [hpost]
        exact hs
  · intro pre post htl
    rcases snoc_eq_split htl with ⟨-, -, hx⟩ | ⟨post', rfl, htl'⟩
    · cases hx
      exact Or.inr (by simp)
    · rcases h.next pre post' htl' with hmem | ⟨rfl, -⟩
      · exact Or.inl (List.mem_append_left _ hmem)
      · exact Or.inr (by simp)
  · intro pre mid post htl
    rcases snoc_eq_split htl with ⟨-, hpre, hx⟩ | ⟨post', -, htl'⟩
    · cases hx
      exact (h.next pre mid hpre.symm).resolve_right (fun hn => hn.2 rfl)
    · exact h.requested pre mid post' htl'

theorem IdrInv.resyncServed (h : IdrInv tl pending resync) : ResyncServed tl := by
  refine ⟨?_, (List.isChain_append.mp h.chain).1, h.requested⟩
  intro pre post htl hlen
  have hs := h.served pre post htl
  unfold Served at hs
  split at hs
  · rename_i hpost
    simp [hpost] at hlen
  · rename_i c hpost
    simp [hpost] at hlen
  · rename_i c c' rest hpost
    rw [hpost]
    rcases hs with rfl | rfl <;> simp

variable {p p' : Pipeline} {a : StreamAction} {out : List StreamOutput} {g : GeneratedFrame}
  {tr : StreamTrace} {v : VideoStreamer} {timestamp : UInt32}

theorem GeneratedFrame.Ok.packets_ne_nil {count : ℕ} {first : Bool} (h : g.Ok count first) :
    g.packets ≠ [] := by
  intro hnil
  have hlen := h.packets.length_eq
  rw [hnil, length_frameDatagrams] at hlen
  have hchunks : g.chunks.toList ≠ [] := by
    intro hn
    simpa using congrArg List.length hn
  obtain ⟨chunk, hchunk⟩ := List.exists_mem_of_ne_nil _ hchunks
  have hmem := List.flatMap_eq_nil_iff.mp (List.length_eq_zero_iff.mp hlen.symm) chunk hchunk
  exact pieces_ne_nil chunk hmem

theorem contains_idr (idr : Bool) (fr : VideoFrameRate) :
    (extOptions idr fr).contains .idr = idr := by
  cases idr <;> cases fr <;> rfl

/-- Every packet of a frame shows the frame's IDR flag. -/
theorem GeneratedFrame.Ok.idrFlagged {count : ℕ} {first : Bool} {pkt : VstrmPacket}
    (h : g.Ok count first) (hp : pkt ∈ g.packets) : idrFlagged pkt.getBytes = g.params.idr := by
  obtain ⟨j, hj⟩ := List.mem_iff_getElem?.mp hp
  obtain ⟨d, hread, -, -, -, hext⟩ := h.read hj
  rw [Pc2Drc.idrFlagged, hread]
  simp only [hext, contains_idr]

theorem all_eq {α : Type} {f : α → Bool} {b : Bool} {l : List α} (hne : l ≠ [])
    (h : ∀ x ∈ l, f x = b) : l.all f = b := by
  cases b with
  | true => exact List.all_eq_true.mpr h
  | false =>
    obtain ⟨x, hx⟩ := List.exists_mem_of_ne_nil _ hne
    exact List.all_eq_false.mpr ⟨x, hx, by simp [h x hx]⟩

section Ticks

variable {now later : UInt32} {encoded : H264ChunkArray}

theorem vstrmIn_tick (hs : PipelineStep p (.tick now later encoded) out p') :
    vstrmIn out = (p.pending.map fun g => g.packets.map VstrmPacket.getBytes).getD [] := by
  cases hs with
  | push hne _ => exact (hne _ _ _ rfl).elim
  | idle hnone =>
    rw [hnone]
    rfl
  | frame =>
    rw [vstrmIn_append, Pipeline.sent]
    cases p.pending with
    | none => rfl
    | some g =>
      rw [Option.map_some, Option.getD_some, vstrmIn_group]
      exact List.append_nil _

/-- A tick transmits the pending frame, with its flag in every datagram. -/
theorem transmitted_tick (h : ∀ g, p.pending = some g → ∃ count first, g.Ok count first)
    (hs : PipelineStep p (.tick now later encoded) out p') :
    transmitted out = p.pending.map (·.params.idr) ∧
      ∀ bytes ∈ vstrmIn out, transmitted out = some (idrFlagged bytes) := by
  rw [transmitted, vstrmIn_tick hs]
  cases hp : p.pending with
  | none => exact ⟨rfl, fun _ hmem => absurd hmem List.not_mem_nil⟩
  | some g =>
    obtain ⟨count, first, hok⟩ := h g hp
    have hne : g.packets.map VstrmPacket.getBytes ≠ [] := by
      simpa using hok.packets_ne_nil
    have hflag : ∀ bytes ∈ g.packets.map VstrmPacket.getBytes, idrFlagged bytes = g.params.idr := by
      intro bytes hbytes
      obtain ⟨pkt, hpkt, rfl⟩ := List.mem_map.mp hbytes
      exact hok.idrFlagged hpkt
    have hsome : transmitted out = some g.params.idr := by
      rw [transmitted, vstrmIn_tick hs, hp, Option.map_some, Option.getD_some, all_eq hne hflag]
      exact if_neg (by simpa using hne)
    rw [transmitted, vstrmIn_tick hs, hp] at hsome
    refine ⟨hsome, ?_⟩
    intro bytes hbytes
    rw [hflag bytes hbytes]
    exact hsome

end Ticks

/-- The timeline of a run against its pipeline. -/
structure ResyncInv (tr : StreamTrace) (p : Pipeline) : Prop where
  pending : ∀ g, p.pending = some g → ∃ count first, g.Ok count first
  idr : IdrInv (timeline tr) (p.pending.map (·.params.idr)) p.resync

theorem timeline_snoc (x : StreamAction × List StreamOutput) :
    timeline (tr ++ [x]) = timeline tr ++ eventsOf x := by
  simp [timeline]

theorem resyncInv_step (h : ResyncInv tr p) (hs : PipelineStep p a out p') :
    ResyncInv (tr ++ [(a, out)]) p' := by
  cases hs with
  | push hne hr =>
    have hev : eventsOf (a, []) = [] := by
      cases a with
      | tick now later encoded => exact (hne _ _ _ rfl).elim
      | resync => exact (hr rfl).elim
      | _ => rfl
    exact ⟨h.pending, by rw [timeline_snoc, hev, List.append_nil]; exact h.idr⟩
  | resync => exact ⟨h.pending, by rw [timeline_snoc]; exact h.idr.resync_step⟩
  | idle =>
    refine ⟨h.pending, ?_⟩
    rw [timeline_snoc, show eventsOf (_, [.rearmTimer _]) = [] from rfl, List.append_nil]
    exact h.idr
  | @frame now later encoded ns g hok hidr =>
    refine ⟨fun g' hg' => ?_, ?_⟩
    · cases hg'
      exact ⟨_, _, hok⟩
    · have htick : PipelineStep p (.tick now later encoded)
          (p.sent ++ [.generated g, .rearmTimer ns]) _ := .frame hok hidr
      rw [timeline_snoc, eventsOf, (transmitted_tick h.pending htick).1]
      have hi := h.idr
      simp only [Option.map_some, hidr]
      cases hp : p.pending with
      | none =>
        rw [hp] at hi
        simpa [Pipeline.resyncLeft, hp] using hi.first_step
      | some g' =>
        rw [hp] at hi
        simpa [Pipeline.resyncLeft, hp] using hi.frame_step

theorem resyncInv_run (hrun : Steps PipelineStep Pipeline.create tr p) : ResyncInv tr p := by
  refine Steps.invariant hrun ?_ (fun _ _ _ _ _ h hs => resyncInv_step h hs)
  refine ⟨by simp [Pipeline.create], ?_⟩
  constructor <;> simp [Pipeline.create, timeline, framesOf]

/-- No resync request is lost and no IDR frame is wasted, in every run. -/
theorem resync_served (hrun : StreamRun timestamp tr v) :
    ResyncServed (timeline tr) ∧ TicksTransmit tr := by
  obtain ⟨p, hp, -⟩ := streamRun_pipeline hrun
  refine ⟨(resyncInv_run hp).idr.resyncServed, ?_, ?_⟩
  · rintro pre now later encoded out post rfl
    obtain ⟨p₁, p₂, hpre, hstep, -⟩ := Steps.split hp
    obtain ⟨v₁, v₂, hv, -, -⟩ := Steps.split hrun
    rw [(transmitted_tick (resyncInv_run hpre).pending hstep).1, ← (fedInv_run hv).generated,
      (pipelineHist_run hpre).pending_eq, Option.isSome_map, List.getLast?_isSome]
  · rintro pre now later encoded out post rfl
    obtain ⟨p₁, p₂, hpre, hstep, -⟩ := Steps.split hp
    exact (transmitted_tick (resyncInv_run hpre).pending hstep).2

/-- The flag of the pending frame, and the request. -/
def Pipeline.flags (p : Pipeline) : Option Bool × Bool := (p.pending.map (·.params.idr), p.resync)

/-- What a tick that generates a frame makes of them. -/
theorem PipelineStep.flags_tick {now later : UInt32} {encoded : H264ChunkArray}
    {pending : Option Bool} {resync : Bool} (hs : PipelineStep p (.tick now later encoded) out p')
    (hflags : p.flags = (pending, resync)) (hgen : generatedIn out ≠ [] ∨ pending ≠ none) :
    p'.flags = (some (pending.elim true (resync && !·)), false) := by
  obtain ⟨hpending, rfl⟩ := Prod.mk.inj hflags
  cases hs with
  | push hne _ => exact (hne _ _ _ rfl).elim
  | idle hnone =>
    rw [hnone] at hpending
    rcases hgen with hgen | hsome
    · exact (hgen rfl).elim
    · exact (hsome hpending.symm).elim
  | @frame _ _ _ _ g hok hidr =>
    rw [Pipeline.flags, Option.map_some, hidr, Pipeline.resyncLeft, ← hpending]
    cases p.pending <;> simp

/-- The theorem at a request that arrives while a frame that is no IDR frame is pending. -/
theorem resync_served_pending : ∃ tr v, StreamRun 0 tr v ∧
    tr.map Prod.fst = [.pushFrame [1], .tick 5 6 (asChunkArray []), .tick 16690 16691
      (asChunkArray []), .resync, .tick 33373 33374 (asChunkArray []), .tick 50056 50057
      (asChunkArray [])] ∧
    timeline tr = [.frame true, .resync, .frame false, .frame true] ∧
    ResyncServed (timeline tr) ∧ TicksTransmit tr := by
  obtain ⟨v₁, o₁, p₁, s₁, q₁, h₁⟩ := (streams_create 0).step (.pushFrame [1])
  obtain ⟨v₂, o₂, p₂, s₂, q₂, h₂⟩ := h₁.step (.tick 5 6 (asChunkArray []))
  obtain ⟨v₃, o₃, p₃, s₃, q₃, h₃⟩ := h₂.step (.tick 16690 16691 (asChunkArray []))
  obtain ⟨v₄, o₄, p₄, s₄, q₄, h₄⟩ := h₃.step .resync
  obtain ⟨v₅, o₅, p₅, s₅, q₅, h₅⟩ := h₄.step (.tick 33373 33374 (asChunkArray []))
  obtain ⟨v₆, o₆, p₆, s₆, q₆, h₆⟩ := h₅.step (.tick 50056 50057 (asChunkArray []))
  have hgen : generatedIn o₂ ≠ [] := by
    have hpushed : pushedFrame [(.pushFrame [1], o₁)] ≠ [] := List.cons_ne_nil 1 []
    rcases (fedInv_run (Steps.single s₁)).generates s₂ with ⟨-, g, hg, -⟩ | ⟨hnot, -⟩
    · rw [hg]
      exact List.cons_ne_nil g []
    · exact (hnot (fed_tick.mpr (Or.inr (Or.inl hpushed)))).elim
  have f₁ : p₁.flags = (none, false) := by
    cases q₁
    rfl
  have f₂ : p₂.flags = (some true, false) := q₂.flags_tick f₁ (Or.inl hgen)
  have f₃ : p₃.flags = (some false, false) := q₃.flags_tick f₂ (Or.inr (by simp))
  have f₄ : p₄.flags = (some false, true) := by
    cases q₄ with
    | push _ hne => exact (hne rfl).elim
    | resync =>
      have hpending : p₃.pending.map (·.params.idr) = some false := congrArg Prod.fst f₃
      exact Prod.ext hpending rfl
  have f₅ : p₅.flags = (some true, false) := q₅.flags_tick f₄ (Or.inr (by simp))
  have i₁ := resyncInv_run (Steps.single q₁)
  have i₂ := resyncInv_step i₁ q₂
  have i₃ := resyncInv_step i₂ q₃
  have i₄ := resyncInv_step i₃ q₄
  have i₅ := resyncInv_step i₄ q₅
  have t₂ := (transmitted_tick i₁.pending q₂).1.trans (congrArg Prod.fst f₁)
  have t₃ := (transmitted_tick i₂.pending q₃).1.trans (congrArg Prod.fst f₂)
  have t₅ := (transmitted_tick i₄.pending q₅).1.trans (congrArg Prod.fst f₄)
  have t₆ := (transmitted_tick i₅.pending q₆).1.trans (congrArg Prod.fst f₅)
  have hrun : StreamRun 0 ([(_, o₁)] ++ [(_, o₂)] ++ [(_, o₃)] ++ [(_, o₄)] ++ [(_, o₅)] ++
      [(_, o₆)]) v₆ := (((((Steps.single s₁).snoc s₂).snoc s₃).snoc s₄).snoc s₅).snoc s₆
  refine ⟨_, v₆, hrun, rfl, ?_, resync_served hrun⟩
  simp only [timeline, List.cons_append, List.nil_append, List.flatMap_cons, List.flatMap_nil,
    eventsOf, t₂, t₃, t₅, t₆]
  rfl

end Pc2Drc
