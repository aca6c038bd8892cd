import Pc2Drc.VideoStreamerSent

/-! Which of the pushed frames and chunk lists a tick packetizes. `ε` is the state of the encoder
and `encode` one call of it. -/
namespace Pc2Drc
open Lib

/-- A call of the encoder, with what it returned. -/
structure EncodeCall where
  frame : List UInt8
  idr : Bool
  result : H264ChunkArray

structure SourceOutput where
  stream : List StreamOutput
  encoded : Option EncodeCall

inductive SourceAction
  | pushFrame (frame : List UInt8)
  | pushH264Chunks (chunks : List (List UInt8))
  | setFrameRate (frameRate : VideoFrameRate)
  | resync
  | tick (now later : UInt32)

/-- The streamer with its encoder. -/
structure EncodedStream (ε : Type) where
  streamer : VideoStreamer
  encoder : ε

abbrev SourceTrace := List (SourceAction × SourceOutput)

/-- The latest chunk list, and the latest raw frame, that were pushed. -/
def lastChunks (tr : SourceTrace) : Option (List (List UInt8)) :=
  (tr.filterMap fun
    | (.pushH264Chunks chunks, _) => some chunks
    | _ => none).getLast?

def lastFrame (tr : SourceTrace) : Option (List UInt8) :=
  (tr.filterMap fun
    | (.pushFrame frame, _) => some frame
    | _ => none).getLast?

def NonemptyPushes (tr : SourceTrace) : Prop :=
  ∀ x ∈ tr, x.1 ≠ .pushFrame [] ∧ x.1 ≠ .pushH264Chunks []

/-- The chunk array is packetized, and was not made by the encoder. -/
def SourceOutput.SendsChunks (o : SourceOutput) (chunks : List (List UInt8)) : Prop :=
  o.encoded = none ∧ (generatedIn o.stream).map GeneratedFrame.chunks = [asChunkArray chunks]

/-- What is packetized is what the encoder returned for the frame. -/
def SourceOutput.SendsFrame (o : SourceOutput) (frame : List UInt8) : Prop :=
  ∃ call, o.encoded = some call ∧ call.frame = frame ∧
    (generatedIn o.stream).map GeneratedFrame.chunks = [call.result]

/-- The stream follows the latest push: a chunk list is packetized in one tick only, unless it is
pushed again, and a raw frame pushed after the last chunk list is encoded. -/
structure FollowsLatest (tr : SourceTrace) : Prop where
  once : ∀ (pre mid mid' post : SourceTrace) chunks now later now' later' o o' o'',
    tr = pre ++ (.pushH264Chunks chunks, o) :: mid ++ (.tick now later, o') :: mid' ++
      (.tick now' later', o'') :: post →
    (∀ again p, (.pushH264Chunks again, p) ∈ mid ++ mid' →
      asChunkArray again ≠ asChunkArray chunks) →
    o'.SendsChunks chunks → ¬ o''.SendsChunks chunks
  latest : ∀ (pre mid post : SourceTrace) frame now later o o',
    tr = pre ++ (.pushFrame frame, o) :: mid ++ (.tick now later, o') :: post →
    lastChunks mid = none → lastFrame mid = none → o'.SendsFrame frame

/-- What a tick packetizes after the pushes in `pre`: the latest chunk list if there is one, however
old it is, or else the latest raw frame. -/
structure TickFollows (pre : SourceTrace) (o : SourceOutput) : Prop where
  chunks : ∀ chunks, lastChunks pre = some chunks → o.SendsChunks chunks
  frame : ∀ frame, lastChunks pre = none → lastFrame pre = some frame → o.SendsFrame frame
  nothing : lastChunks pre = none → lastFrame pre = none →
    o.encoded = none ∧ generatedIn o.stream = []

def FollowsPriority (tr : SourceTrace) : Prop :=
  ∀ (pre post : SourceTrace) now later o, tr = pre ++ (.tick now later, o) :: post →
    TickFollows pre o

section
variable {ε : Type} (encode : ε → List UInt8 → Bool → ε × H264ChunkArray)

namespace EncodedStream

/-- A tick of the streamer; the encoder is called only when it has a frame and no chunks. -/
def tick (s : EncodedStream ε) (now later : UInt32) :
    Except Fault (EncodedStream ε × SourceOutput) :=
  let v := s.streamer.latched
  if v.latchedChunks.length = 0 ∧ v.encodingFrame.length > 0 then do
    let sendIdr := v.resyncRequested || !v.vstrmInited
    let (encoder, result) := encode s.encoder v.encodingFrame sendIdr
    let (streamer, out) ← s.streamer.tick now later result
    return (⟨streamer, encoder⟩, ⟨out, some ⟨v.encodingFrame, sendIdr, result⟩⟩)
  else do
    let (streamer, out) ← s.streamer.tick now later (asChunkArray [])
    return (⟨streamer, s.encoder⟩, ⟨out, none⟩)

/-- The other ways into the loop do not reach the encoder. -/
def deliver (s : EncodedStream ε) (a : StreamAction) :
    Except Fault (EncodedStream ε × SourceOutput) := do
  let (streamer, out) ← s.streamer.handle a
  return (⟨streamer, s.encoder⟩, ⟨out, none⟩)

def handle (s : EncodedStream ε) :
    SourceAction → Except Fault (EncodedStream ε × SourceOutput)
  | .pushFrame frame => s.deliver (.pushFrame frame)
  | .pushH264Chunks chunks => s.deliver (.pushH264Chunks chunks)
  | .setFrameRate frameRate => s.deliver (.setFrameRate frameRate)
  | .resync => s.deliver .resync
  | .tick now later => s.tick encode now later

end EncodedStream

def SourceStep (s : EncodedStream ε) (a : SourceAction) (o : SourceOutput)
    (s' : EncodedStream ε) : Prop :=
  s.handle encode a = .ok (s', o)

/-- The runs of a streamer whose encoder starts at `e`. -/
def SourceRun (timestamp : UInt32) (e : ε) (tr : SourceTrace) (s : EncodedStream ε) : Prop :=
  Steps (SourceStep encode) ⟨.create timestamp, e⟩ tr s

end

/-- The slot that pushes fill goes before the latched copy. -/
def freshest {α : Type} (pushed latched : List α) : Option (List α) :=
  if pushed.length ≠ 0 then some pushed else if latched.length ≠ 0 then some latched else none

structure SourceInv (tr : SourceTrace) (v : VideoStreamer) : Prop where
  chunks : lastChunks tr = freshest v.h264Chunks v.latchedChunks
  frame : lastFrame tr = freshest v.frame v.encodingFrame

variable {ε : Type} {encode : ε → List UInt8 → Bool → ε × H264ChunkArray} {tr : SourceTrace}
  {s s' : EncodedStream ε} {v v' : VideoStreamer} {o : SourceOutput} {a : SourceAction}

theorem freshest_nil {α : Type} (latched : List α) :
    freshest [] latched = if latched.length ≠ 0 then some latched else none := rfl

theorem freshest_push {α : Type} {pushed : List α} (latched : List α) (h : pushed ≠ []) :
    freshest pushed latched = some pushed :=
  if_pos (fun hlen => h (List.length_eq_zero_iff.mp hlen))

/-- Both slots are empty after the latch, and nothing is lost by it. -/
theorem freshest_latched (v : VideoStreamer) :
    freshest v.latched.h264Chunks v.latched.latchedChunks = freshest v.h264Chunks v.latchedChunks ∧
      freshest v.latched.frame v.latched.encodingFrame = freshest v.frame v.encodingFrame ∧
      v.latched.h264Chunks = [] ∧ v.latched.frame = [] := by
  obtain ⟨hframe, hchunks, hlatched, hencoding⟩ := VideoStreamer.latched_slots v
  rw [hframe, hchunks, hlatched, hencoding]
  refine ⟨?_, ?_, rfl, rfl⟩
  · by_cases h : v.h264Chunks = [] <;> simp [freshest, h]
  · by_cases h : v.frame = [] <;> simp [freshest, h]

/-- A tick latches the slots and packetizes the current chunks. -/
theorem tick_source {now later : UInt32} {encoded : H264ChunkArray} {out : List StreamOutput}
    (h : v.tick now later encoded = .ok (v', out)) :
    freshest v'.h264Chunks v'.latchedChunks = freshest v.h264Chunks v.latchedChunks ∧
      freshest v'.frame v'.encodingFrame = freshest v.frame v.encodingFrame ∧
      (generatedIn out).map GeneratedFrame.chunks = (v.latched.currentChunks encoded).toList := by
  obtain ⟨hf, hc, hl, he, hcases⟩ := tick_slots h
  obtain ⟨hchunks, hframe, -, -⟩ := freshest_latched v
  refine ⟨?_, ?_, ?_⟩
  · rw [hc, hl, hchunks]
  · rw [hf, he, hframe]
  · rcases hcases with ⟨hnone, hgen⟩ | ⟨g, hsome, -, hgen⟩
    · rw [hnone, hgen]
      rfl
    · rw [hsome, hgen]
      rfl

/-- The latched copies are the latest pushes. -/
theorem SourceInv.latched (h : SourceInv tr v) :
    v.latched.latchedChunks = (lastChunks tr).getD [] ∧
      v.latched.encodingFrame = (lastFrame tr).getD [] := by
  obtain ⟨hchunks, hframe, hc, hf⟩ := freshest_latched v
  rw [h.chunks, h.frame, ← hchunks, ← hframe, hc, hf, freshest_nil, freshest_nil]
  constructor
  · split_ifs with hlen
    · rfl
    · exact List.length_eq_zero_iff.mp (not_not.mp hlen)
  · split_ifs with hlen
    · rfl
    · exact List.length_eq_zero_iff.mp (not_not.mp hlen)

theorem SourceInv.ne_nil (h : SourceInv tr v) :
    lastChunks tr ≠ some [] ∧ lastFrame tr ≠ some [] := by
  rw [h.chunks, h.frame]
  unfold freshest
  constructor <;> split_ifs <;> simp_all

/-- The current chunks are those of the latest push. -/
theorem SourceInv.currentChunks (h : SourceInv tr v) (encoded : H264ChunkArray) :
    v.latched.currentChunks encoded = match lastChunks tr, lastFrame tr with
      | some chunks, _ => some (asChunkArray chunks)
      | none, some _ => some encoded
      | none, none => none := by
  obtain ⟨hchunks, hframe⟩ := h.latched
  obtain ⟨hne, hne'⟩ := h.ne_nil
  unfold VideoStreamer.currentChunks
  rw [hchunks, hframe]
  cases hc : lastChunks tr with
  | some chunks =>
    have hpos : chunks.length > 0 := List.length_pos_iff.mpr (fun hnil => hne (by rw [hc, hnil]))
    exact if_pos hpos
  | none =>
    cases hf : lastFrame tr with
    | some frame =>
      have hpos : frame.length > 0 := List.length_pos_iff.mpr (fun hnil => hne' (by rw [hf, hnil]))
      exact if_pos hpos
    | none => rfl

theorem tickFollows_step {now later : UInt32} (h : SourceInv tr s.streamer)
    (hs : SourceStep encode s (.tick now later) o s') :
    TickFollows tr o ∧ SourceInv tr s'.streamer := by
  obtain ⟨hchunks, hframe⟩ := h.latched
  obtain ⟨hne, hne'⟩ := h.ne_nil
  change s.tick encode now later = .ok (s', o) at hs
  unfold EncodedStream.tick at hs
  simp only [hchunks, hframe] at hs
  split_ifs at hs with hcall
  · obtain ⟨⟨v, out⟩, htick, hret⟩ := bind_eq_ok.mp hs
    cases hret
    obtain ⟨hc, hf, hgen⟩ := tick_source htick
    rw [h.currentChunks] at hgen
    refine ⟨⟨?_, ?_, ?_⟩, ⟨h.chunks.trans hc.symm, h.frame.trans hf.symm⟩⟩
    · intro chunks hlast
      rw [hlast] at hcall hne
      exact (hne (congrArg some (List.length_eq_zero_iff.mp hcall.1))).elim
    · intro frame hnone hlast
      simp only [hnone, hlast] at hgen ⊢
      exact ⟨_, rfl, rfl, hgen⟩
    · intro _ hlast
      rw [hlast] at hcall
      exact (Nat.lt_irrefl 0 hcall.2).elim
  · obtain ⟨⟨v, out⟩, htick, hret⟩ := bind_eq_ok.mp hs
    cases hret
    obtain ⟨hc, hf, hgen⟩ := tick_source htick
    rw [h.currentChunks] at hgen
    refine ⟨⟨?_, ?_, ?_⟩, ⟨h.chunks.trans hc.symm, h.frame.trans hf.symm⟩⟩
    · intro chunks hlast
      rw [hlast] at hgen
      exact ⟨rfl, hgen⟩
    · intro frame hnone hlast
      rw [hnone, hlast] at hcall
      rw [hlast] at hne'
      refine (hcall ⟨rfl, List.length_pos_iff.mpr ?_⟩).elim
      exact fun hnil => hne' (congrArg some hnil)
    · intro hnone hlast
      rw [hnone, hlast] at hgen
      exact ⟨rfl, List.map_eq_nil_iff.mp hgen⟩

theorem lastChunks_snoc (tr : SourceTrace) (a : SourceAction) (o : SourceOutput) :
    lastChunks (tr ++ [(a, o)]) = match a with
      | .pushH264Chunks chunks => some chunks
      | _ => lastChunks tr := by
  cases a <;> simp [lastChunks]

theorem lastFrame_snoc (tr : SourceTrace) (a : SourceAction) (o : SourceOutput) :
    lastFrame (tr ++ [(a, o)]) = match a with
      | .pushFrame frame => some frame
      | _ => lastFrame tr := by
  cases a <;> simp [lastFrame]

theorem sourceInv_step (h : SourceInv tr s.streamer) (hs : SourceStep encode s a o s')
    (hframe : a ≠ .pushFrame []) (hchunks : a ≠ .pushH264Chunks []) :
    SourceInv (tr ++ [(a, o)]) s'.streamer := by
  refine ⟨?_, ?_⟩ <;> simp only [lastChunks_snoc, lastFrame_snoc]
  · cases a with
    | pushFrame | setFrameRate | resync =>
      cases hs
      exact h.chunks
    | pushH264Chunks chunks =>
      cases hs
      exact (freshest_push _ (fun hnil => hchunks (hnil ▸ rfl))).symm
    | tick now later => exact (tickFollows_step h hs).2.chunks
  · cases a with
    | pushH264Chunks | setFrameRate | resync =>
      cases hs
      exact h.frame
    | pushFrame frame =>
      cases hs
      exact (freshest_push _ (fun hnil => hframe (hnil ▸ rfl))).symm
    | tick now later => exact (tickFollows_step h hs).2.frame

theorem sourceRun_priority {timestamp : UInt32} {e : ε} (h : SourceRun encode timestamp e tr s)
    (hpush : NonemptyPushes tr) : FollowsPriority tr := by
  have hinv : NonemptyPushes tr → SourceInv tr s.streamer ∧ FollowsPriority tr := by
    refine Steps.invariant
      (P := fun tr s => NonemptyPushes tr → SourceInv tr s.streamer ∧ FollowsPriority tr) h ?_ ?_
    · intro _
      refine ⟨⟨rfl, rfl⟩, ?_⟩
      intro pre post now later o htr
      simp at htr
    · intro tr s a o s' ih hs hpush
      have hprev : NonemptyPushes tr := fun x hx => hpush x (List.mem_append_left _ hx)
      obtain ⟨hframe, hchunks⟩ := hpush (a, o) (by simp)
      obtain ⟨hsource, hfollows⟩ := ih hprev
      refine ⟨sourceInv_step hsource hs hframe hchunks, ?_⟩
      intro pre post now later o' htr
      rcases snoc_eq_split htr with ⟨-, rfl, hlast⟩ | ⟨post', -, htr'⟩
      · cases hlast
        exact (tickFollows_step hsource hs).1
      · exact hfollows pre post' now later o' htr'
  exact (hinv hpush).2

theorem sourceStep_total (encode : ε → List UInt8 → Bool → ε × H264ChunkArray) {p : Pipeline}
    (h : Streams p s.streamer) (a : SourceAction) :
    ∃ o s', SourceStep encode s a o s' ∧ ∃ p', Streams p' s'.streamer := by
  cases a with
  | pushFrame | pushH264Chunks | setFrameRate => exact ⟨_, _, rfl, p, { h with }⟩
  | resync => exact ⟨_, _, rfl, { p with resync := true }, { h with resync := rfl }⟩
  | tick now later =>
    simp only [SourceStep, EncodedStream.handle, EncodedStream.tick]
    split_ifs
    · obtain ⟨v, out, p', hstep, -, hp'⟩ := h.step (.tick now later (encode s.encoder
        s.streamer.latched.encodingFrame
        (s.streamer.latched.resyncRequested || !s.streamer.latched.vstrmInited)).2)
      exact ⟨_, _, bind_eq_ok.mpr ⟨_, hstep, rfl⟩, p', hp'⟩
    · obtain ⟨v, out, p', hstep, -, hp'⟩ := h.step (.tick now later (asChunkArray []))
      exact ⟨_, _, bind_eq_ok.mpr ⟨_, hstep, rfl⟩, p', hp'⟩

theorem sourceRun_total (encode : ε → List UInt8 → Bool → ε × H264ChunkArray)
    (timestamp : UInt32) (e : ε) (actions : List SourceAction) :
    ∃ tr s, SourceRun encode timestamp e tr s ∧ tr.map Prod.fst = actions := by
  obtain ⟨tr, s, hrun, hacts, -⟩ := Steps.total
    (P := fun s : EncodedStream ε => ∃ p, Streams p s.streamer)
    (s := ⟨.create timestamp, e⟩) ⟨_, streams_create timestamp⟩
    (fun s a ⟨_, hp⟩ => sourceStep_total encode hp a) actions
  exact ⟨tr, s, hrun, hacts⟩

/-- Pushes and ticks run in every order; every tick packetizes the latest chunk list if one was ever
pushed, again and again, or else the encoding of the latest raw frame. -/
theorem stream_follows_priority (encode : ε → List UInt8 → Bool → ε × H264ChunkArray)
    (timestamp : UInt32) (e : ε) :
    (∀ actions, ∃ tr s, SourceRun encode timestamp e tr s ∧ tr.map Prod.fst = actions) ∧
      ∀ tr s, SourceRun encode timestamp e tr s → NonemptyPushes tr → FollowsPriority tr := by
  refine ⟨sourceRun_total encode timestamp e, ?_⟩
  intro tr s h hpush
  exact sourceRun_priority h hpush

/-- The theorem at a raw frame, a chunk list after it, and a tick after each of them. -/
theorem stream_follows_priority_both : ∃ (tr : SourceTrace) (s : EncodedStream ℕ),
    SourceRun (fun n _ _ => (n + 1, asChunkArray [])) 0 0 tr s ∧
    tr.map Prod.fst = [.pushFrame [1], .tick 0 1, .pushH264Chunks [[2]], .tick 16683 16684] ∧
    FollowsPriority tr := by
  obtain ⟨htotal, hall⟩ := stream_follows_priority (fun n _ _ => (n + 1, asChunkArray [])) 0 0
  obtain ⟨tr, s, hrun, hacts⟩ :=
    htotal [.pushFrame [1], .tick 0 1, .pushH264Chunks [[2]], .tick 16683 16684]
  refine ⟨tr, s, hrun, hacts, hall tr s hrun ?_⟩
  intro x hx
  have hmem : x.1 ∈ tr.map Prod.fst := List.mem_map_of_mem hx
  rw [hacts] at hmem
  simp only [List.mem_cons, List.not_mem_nil, or_false] at hmem
  rcases hmem with h | h | h | h <;> simp [h]

/-- A chunk list that is pushed once is packetized by both ticks that follow. -/
theorem stream_repeats_chunks : ¬ ∀ (tr : SourceTrace) (s : EncodedStream ℕ),
    SourceRun (fun n _ _ => (n + 1, asChunkArray [])) 0 0 tr s → NonemptyPushes tr →
    FollowsLatest tr := by
  intro hall
  obtain ⟨tr, s, hrun, hacts⟩ := sourceRun_total (fun n _ _ => (n + 1, asChunkArray [])) 0 0
    [.pushH264Chunks [[2]], .tick 0 1, .tick 16683 16684]
  match tr, hacts with
  | [(_, o), (_, o'), (_, o'')], hacts =>
    simp only [List.map_cons, List.map_nil, List.cons.injEq, and_true] at hacts
    obtain ⟨rfl, rfl, rfl⟩ := hacts
    have hpush : NonemptyPushes [(.pushH264Chunks [[2]], o), (.tick 0 1, o'),
        (.tick 16683 16684, o'')] := by
      simp [NonemptyPushes]
    have hfollows := sourceRun_priority hrun hpush
    have hfirst := (hfollows [(.pushH264Chunks [[2]], o)] [(.tick 16683 16684, o'')] 0 1 o'
      rfl).chunks [[2]] rfl
    have hsecond := (hfollows [(.pushH264Chunks [[2]], o), (.tick 0 1, o')] [] 16683 16684 o''
      rfl).chunks [[2]] rfl
    exact (hall _ s hrun hpush).once [] [] [] [] [[2]] 0 1 16683 16684 o o' o'' rfl (by simp)
      hfirst hsecond

end Pc2Drc
