import Pc2Drc.ConverterRuns
import Pc2Drc.VideoStreamerSource

/-! The converter in front of the video streamer: how old the frame is that a tick encodes. -/
namespace Pc2Drc
open Lib

/-- The converter's done callback pushes to the streamer. -/
structure StreamingSystem (ε : Type) where
  converter : VideoConverter
  stream : EncodedStream ε

inductive SystemAction
  | converter (a : ConverterAction)
  | source (a : SourceAction)

inductive SystemOutput
  | converter (o : Option ConverterOutput)
  | source (o : SourceOutput)

abbrev SystemTrace := List (SystemAction × SystemOutput)

section
variable {ε : Type} (sws : SwsScale → List (List UInt8) → List UInt8)
  (encode : ε → List UInt8 → Bool → ε × H264ChunkArray)

inductive SystemStep : StreamingSystem ε → SystemAction → SystemOutput → StreamingSystem ε → Prop
  | converter {c c' : VideoConverter} {st : EncodedStream ε} {a : ConverterAction}
      {o : Option ConverterOutput} :
      ConverterStep sws c a o c' → (∀ frame, o ≠ some (.delivered frame)) →
        SystemStep ⟨c, st⟩ (.converter a) (.converter o) ⟨c', st⟩
  | done {c c' : VideoConverter} {st st' : EncodedStream ε} {a : ConverterAction}
      {frame : List UInt8} {out : SourceOutput} :
      ConverterStep sws c a (some (.delivered frame)) c' →
        SourceStep encode st (.pushFrame frame) out st' →
          SystemStep ⟨c, st⟩ (.converter a) (.converter (some (.delivered frame))) ⟨c', st'⟩
  | source {c : VideoConverter} {st st' : EncodedStream ε} {a : SourceAction} {out : SourceOutput} :
      SourceStep encode st a out st' → SystemStep ⟨c, st⟩ (.source a) (.source out) ⟨c, st'⟩

def SystemRun (timestamp : UInt32) (e : ε) (tr : SystemTrace) (s : StreamingSystem ε) : Prop :=
  Steps (SystemStep sws encode) ⟨.create, ⟨.create timestamp, e⟩⟩ tr s

end

/-- The converter's part of a run. -/
def converterOf (tr : SystemTrace) : ConverterTrace :=
  tr.filterMap fun
    | (.converter a, .converter o) => some (a, o)
    | _ => none

/-- The streamer's part of a run, with the frames that the converter pushes to it. -/
def sourceOf (tr : SystemTrace) : SourceTrace :=
  tr.filterMap fun
    | (.converter _, .converter (some (.delivered frame))) => some (.pushFrame frame, ⟨[], none⟩)
    | (.source a, .source o) => some (a, o)
    | _ => none

/-- Frames come to the streamer through the converter alone. -/
def ThroughConverter (tr : SystemTrace) : Prop :=
  ∀ a o, (.source a, o) ∈ tr →
    (∀ frame, a ≠ .pushFrame frame) ∧ ∀ chunks, a ≠ .pushH264Chunks chunks

/-- How many calls of `PushFrame` have returned. -/
def returnedIn (tr : ConverterTrace) : ℕ :=
  tr.countP fun
    | (_, some .pushed) => true
    | _ => false

/-- `Stop` has returned since the last push. -/
def StoppedSince (tr : ConverterTrace) : Prop :=
  ∃ pre a mid, tr = pre ++ (a, some .stopped) :: mid ∧ pushedIn mid = []

/-- A tick after `pre` encodes the conversion of the `k`-th push. -/
structure EncodesPush (sws : SwsScale → List (List UInt8) → List UInt8) (pushes : List PushedFrame)
    (k : ℕ) (o : SourceOutput) : Prop where
  nothing : k = 0 → o.encoded = none ∧ generatedIn o.stream = []
  frame : ∀ i, k = i + 1 → ∃ job frame, pushes[i]? = some job ∧ converted sws job = some frame ∧
    o.SendsFrame frame

/-- What the ticks of a run encode, and that the last push can always come to one. -/
structure EncodesRecent {ε : Type} (sws : SwsScale → List (List UInt8) → List UInt8)
    (encode : ε → List UInt8 → Bool → ε × H264ChunkArray) (tr : SystemTrace)
    (s : StreamingSystem ε) : Prop where
  ticks : ∀ pre post now later o, tr = pre ++ (.source (.tick now later), .source o) :: post →
    ∃ k ≤ (pushedIn (converterOf pre)).length,
      EncodesPush sws (pushedIn (converterOf pre)) k o ∧ returnedIn (converterOf pre) ≤ k + 1 ∧
      (StoppedSince (converterOf pre) → k = (pushedIn (converterOf pre)).length)
  progress : (∀ job ∈ pushedIn (converterOf tr), converted sws job ≠ none) → ∀ now later,
    ∃ tr' o s', Steps (SystemStep sws encode) s
        (tr' ++ [(.source (.tick now later), .source o)]) s' ∧
      NoCalls (converterOf tr') ∧ ThroughConverter tr' ∧
      EncodesPush sws (pushedIn (converterOf tr)) (pushedIn (converterOf tr)).length o

variable {ε : Type} {sws : SwsScale → List (List UInt8) → List UInt8}
  {encode : ε → List UInt8 → Bool → ε × H264ChunkArray} {timestamp : UInt32} {e : ε}
  {tr tr' : SystemTrace} {s : StreamingSystem ε} {c c' : VideoConverter} {ctr : ConverterTrace}

theorem converterOf_append (tr tr' : SystemTrace) :
    converterOf (tr ++ tr') = converterOf tr ++ converterOf tr' :=
  List.filterMap_append

theorem sourceOf_append (tr tr' : SystemTrace) :
    sourceOf (tr ++ tr') = sourceOf tr ++ sourceOf tr' :=
  List.filterMap_append

/-- Each part of a run is a run of its own. -/
theorem systemRun_parts (h : SystemRun sws encode timestamp e tr s) :
    ConverterRun sws (converterOf tr) s.converter ∧
      SourceRun encode timestamp e (sourceOf tr) s.stream := by
  refine Steps.invariant
    (P := fun (tr : SystemTrace) (s : StreamingSystem ε) =>
      ConverterRun sws (converterOf tr) s.converter ∧
        SourceRun encode timestamp e (sourceOf tr) s.stream) h ⟨.refl, .refl⟩ ?_
  rintro tr s a o s' ⟨hconv, hsource⟩ hs
  rw [converterOf_append, sourceOf_append]
  cases hs with
  | @converter c c' st a o hstep hsilent =>
    have hnone : sourceOf [(.converter a, .converter o)] = [] := by
      rcases o with _ | _ | frame | _ | _
      case some.delivered => exact absurd rfl (hsilent frame)
      all_goals rfl
    rw [hnone, List.append_nil]
    exact ⟨hconv.snoc hstep, hsource⟩
  | done hstep hpush =>
    cases hpush
    exact ⟨hconv.snoc hstep, hsource.snoc rfl⟩
  | source hstep => exact ⟨(List.append_nil (converterOf tr)).symm ▸ hconv, hsource.snoc hstep⟩

theorem ThroughConverter.left (h : ThroughConverter (tr ++ tr')) : ThroughConverter tr :=
  fun a o hx => h a o (List.mem_append_left tr' hx)

theorem ThroughConverter.append (h : ThroughConverter tr) (h' : ThroughConverter tr') :
    ThroughConverter (tr ++ tr') := by
  intro a o hx
  rcases List.mem_append.mp hx with hx | hx
  · exact h a o hx
  · exact h' a o hx

theorem throughConverter_converter (a : ConverterAction) (o : Option ConverterOutput) :
    ThroughConverter [(.converter a, .converter o)] := by
  intro b o hx
  cases List.mem_singleton.mp hx

theorem throughConverter_tick (now later : UInt32) (o : SourceOutput) :
    ThroughConverter [(.source (.tick now later), .source o)] := by
  intro a o hx
  cases List.mem_singleton.mp hx
  refine ⟨?_, ?_⟩
  · intro frame h
    cases h
  · intro chunks h
    cases h

/-- Without other pushes, the last frame of the streamer is the last one delivered. -/
theorem lastFrame_sourceOf (h : ThroughConverter tr) :
    lastFrame (sourceOf tr) = (deliveredIn (converterOf tr)).getLast? ∧
      lastChunks (sourceOf tr) = none := by
  induction tr using List.reverseRecOn with
  | nil => exact ⟨rfl, rfl⟩
  | append_singleton tr x ih =>
    obtain ⟨hframe, hchunks⟩ := ih h.left
    rw [sourceOf_append, converterOf_append, deliveredIn_append]
    have hsilent : sourceOf [x] = [] → deliveredIn (converterOf [x]) = [] →
        lastFrame (sourceOf tr ++ sourceOf [x]) =
            (deliveredIn (converterOf tr) ++ deliveredIn (converterOf [x])).getLast? ∧
          lastChunks (sourceOf tr ++ sourceOf [x]) = none := by
      intro hs hd
      rw [hs, hd, List.append_nil, List.append_nil]
      exact ⟨hframe, hchunks⟩
    rcases x with ⟨a | a, o | o⟩
    · rcases o with _ | _ | frame | _ | _
      case some.delivered =>
        refine ⟨(lastFrame_snoc _ _ _).trans ?_, (lastChunks_snoc _ _ _).trans hchunks⟩
        exact List.getLast?_concat.symm
      all_goals exact hsilent rfl rfl
    · exact hsilent rfl rfl
    · exact hsilent rfl rfl
    · have hdelivered : deliveredIn (converterOf tr) ++
          deliveredIn (converterOf [(.source a, .source o)]) = deliveredIn (converterOf tr) :=
        List.append_nil _
      obtain ⟨hnf, hnc⟩ := h a (.source o) (List.mem_append_right tr List.mem_cons_self)
      rw [hdelivered]
      refine ⟨(lastFrame_snoc _ _ _).trans ?_, (lastChunks_snoc _ _ _).trans ?_⟩
      · cases a with
        | pushFrame frame => exact absurd rfl (hnf frame)
        | _ => exact hframe
      · cases a with
        | pushH264Chunks chunks => exact absurd rfl (hnc chunks)
        | _ => exact hchunks

/-- Every frame that is delivered is the conversion of a push. -/
theorem converted_of_delivered {frame : List UInt8} (h : ConverterRun sws ctr c)
    (hframe : frame ∈ deliveredIn ctr) : ∃ job ∈ pushedIn ctr, converted sws job = some frame := by
  obtain ⟨waiting, n, live, hserved, -⟩ := serving_run h
  have hmem : some frame ∈ ((pushedIn ctr).take (deliveredIn ctr).length).map (converted sws) := by
    rw [← hserved.answers]
    exact List.mem_map_of_mem hframe
  obtain ⟨job, hjob, heq⟩ := List.mem_map.mp hmem
  exact ⟨job, List.mem_of_mem_take hjob, heq⟩

theorem converted_ne_nil {job : PushedFrame} {frame : List UInt8}
    (hsws : ∀ call rows, sws call rows ≠ []) (h : converted sws job = some frame) : frame ≠ [] := by
  obtain ⟨call, -, h⟩ := Option.bind_eq_some_iff.mp h
  obtain ⟨rows, -, h⟩ := Option.bind_eq_some_iff.mp h
  cases h
  exact hsws call rows

theorem nonemptyPushes_sourceOf (h : SystemRun sws encode timestamp e tr s)
    (hc : ThroughConverter tr) (hsws : ∀ call rows, sws call rows ≠ []) :
    NonemptyPushes (sourceOf tr) := by
  intro x hx
  obtain ⟨⟨a, o⟩, hmem, heq⟩ := List.mem_filterMap.mp hx
  rcases a with a | a <;> rcases o with o | o
  · rcases o with _ | _ | frame | _ | _ <;> cases heq
    have hframe : frame ∈ deliveredIn (converterOf tr) :=
      List.mem_filterMap.mpr ⟨(a, _), List.mem_filterMap.mpr ⟨_, hmem, rfl⟩, rfl⟩
    obtain ⟨job, -, hjob⟩ := converted_of_delivered (systemRun_parts h).1 hframe
    refine ⟨?_, nofun⟩
    intro hnil
    cases hnil
    exact converted_ne_nil hsws hjob rfl
  · cases heq
  · cases heq
  · cases heq
    obtain ⟨hnf, hnc⟩ := hc a (.source o) hmem
    exact ⟨hnf [], hnc []⟩

/-- Whether the user's thread is in a call of `PushFrame`. -/
def openPushes : UserAt → ℕ
  | .idle | .wait none => 0
  | _ => 1

theorem returnedIn_append (tr tr' : ConverterTrace) :
    returnedIn (tr ++ tr') = returnedIn tr + returnedIn tr' :=
  List.countP_append

theorem returned_userStep {c' : VideoConverter} {o : Option ConverterOutput}
    (hs : c.userStep = some (c', o)) :
    openPushes c.user = returnedIn [(.user, o)] + openPushes c'.user := by
  rw [VideoConverter.userStep] at hs
  split at hs
  case h_1 => cases hs
  case h_2 hu | h_3 hu | h_7 hu =>
    split at hs <;> cases hs
    rw [hu]
    rfl
  all_goals
    rename_i hu
    cases hs
    rw [hu]
    rfl

theorem returned_step {a : ConverterAction} {c' : VideoConverter} {o : Option ConverterOutput}
    (hs : ConverterStep sws c a o c') :
    (pushedIn [(a, o)]).length + openPushes c.user =
      returnedIn [(a, o)] + openPushes c'.user := by
  cases a with
  | pushFrame frame params =>
    obtain ⟨hidle, rfl, rfl⟩ := step_pushFrame hs
    rw [hidle]
    rfl
  | stop =>
    obtain ⟨hidle, rfl, rfl⟩ := step_stop hs
    rw [hidle]
    rfl
  | user => exact (Nat.zero_add _).trans (returned_userStep hs)
  | thread i =>
    obtain ⟨t, t', ctxs, -, hstep, rfl⟩ := step_thread hs
    rcases conversionStep_remaining hstep with ⟨-, -, rfl | ⟨p, rfl⟩⟩ | ⟨frame, -, -, rfl⟩ <;> rfl

theorem returned_run (h : ConverterRun sws ctr c) :
    (pushedIn ctr).length = returnedIn ctr + openPushes c.user := by
  refine Steps.invariant
    (P := fun (ctr : ConverterTrace) (c : VideoConverter) =>
      (pushedIn ctr).length = returnedIn ctr + openPushes c.user) h rfl ?_
  intro ctr c a o c' ih hs
  have hstep := returned_step hs
  rw [pushedIn_append, returnedIn_append, List.length_append, ih]
  omega

/-- The conversion of the last push but one is delivered when a push returns. -/
theorem returnedIn_le (h : ConverterRun sws ctr c) :
    returnedIn ctr ≤ (deliveredIn ctr).length + 1 := by
  obtain ⟨waiting, n, live, hserved, hserving⟩ := serving_run h
  have hlen := hserved.length_add
  have hreturned := returned_run h
  have hwaiting := congrArg List.length hserving.waiting
  rw [List.length_append, List.length_map] at hwaiting
  have hlive : live.toList.length ≤ 1 := Option.length_toList_le
  have hheld : c.held.length ≤ openPushes c.user := by
    rw [VideoConverter.held]
    rcases c.user with _ | (_ | _) | _ | _ | _ | _ <;> simp [openPushes]
  omega

theorem delivered_of_stoppedSince (h : ConverterRun sws ctr c) (hs : StoppedSince ctr) :
    (deliveredIn ctr).length = (pushedIn ctr).length := by
  obtain ⟨pre, a, mid, rfl, hmid⟩ := hs
  obtain ⟨waiting, n, live, hserved, -⟩ := serving_run h
  have hle := hserved.length_add
  rw [List.append_cons] at h hle ⊢
  obtain ⟨c₁, hpre, -⟩ := Steps.cut h
  have heq := delivered_of_stopped hpre
  rw [deliveredIn_append _ mid, pushedIn_append _ mid, hmid, List.length_append, List.append_nil]
    at hle ⊢
  omega

/-- A tick encodes the last frame that the converter has delivered. -/
theorem tick_encodes_delivered {pre post : SystemTrace} {now later : UInt32} {o : SourceOutput}
    (h : SystemRun sws encode timestamp e
      (pre ++ (.source (.tick now later), .source o) :: post) s)
    (hc : ThroughConverter (pre ++ (.source (.tick now later), .source o) :: post))
    (hsws : ∀ call rows, sws call rows ≠ []) :
    EncodesPush sws (pushedIn (converterOf pre)) (deliveredIn (converterOf pre)).length o := by
  obtain ⟨s₁, hpre, -⟩ := Steps.cut h
  have hfollows : TickFollows (sourceOf pre) o :=
    sourceRun_priority (systemRun_parts h).2 (nonemptyPushes_sourceOf h hc hsws)
      (sourceOf pre) (sourceOf post) now later o (sourceOf_append _ _)
  obtain ⟨hframe, hchunks⟩ := lastFrame_sourceOf hc.left
  obtain ⟨waiting, n, live, hserved, -⟩ := serving_run (systemRun_parts hpre).1
  refine ⟨?_, ?_⟩
  · intro hzero
    rw [List.length_eq_zero_iff.mp hzero] at hframe
    exact hfollows.nothing hchunks hframe
  · intro i hi
    obtain ⟨job, frame, hjob, hlast, hconverted⟩ := hserved.last hi
    exact ⟨job, frame, hjob, hconverted, hfollows.frame frame hchunks (hframe.trans hlast)⟩

/-- The streamer takes every frame, so the converter's steps are steps of the system. -/
theorem steps_of_converter (encode : ε → List UInt8 → Bool → ε × H264ChunkArray)
    (h : Steps (ConverterStep sws) c ctr c') (st : EncodedStream ε) :
    ∃ tr st', Steps (SystemStep sws encode) ⟨c, st⟩ tr ⟨c', st'⟩ ∧ converterOf tr = ctr ∧
      ThroughConverter tr := by
  induction h with
  | refl => exact ⟨[], st, .refl, rfl, fun _ _ hx => absurd hx List.not_mem_nil⟩
  | @snoc ctr c₁ c₂ a o _ hstep ih =>
    obtain ⟨tr, st₁, hrun, rfl, hc⟩ := ih
    have hnext : ∃ st',
        SystemStep sws encode ⟨c₁, st₁⟩ (.converter a) (.converter o) ⟨c₂, st'⟩ := by
      by_cases hd : ∃ frame, o = some (.delivered frame)
      · obtain ⟨frame, rfl⟩ := hd
        exact ⟨_, .done hstep rfl⟩
      · exact ⟨st₁, .converter hstep fun frame ho => hd ⟨frame, ho⟩⟩
    obtain ⟨st', hs⟩ := hnext
    exact ⟨_, st', hrun.snoc hs, converterOf_append _ _, hc.append (throughConverter_converter a o)⟩

theorem streams_sourceRun {str : SourceTrace} {st : EncodedStream ε}
    (h : SourceRun encode timestamp e str st) : ∃ p, Streams p st.streamer := by
  refine Steps.preserves (P := fun st : EncodedStream ε => ∃ p, Streams p st.streamer) h
    ⟨_, streams_create timestamp⟩ ?_
  rintro st a o st' ⟨p, hp⟩ hs
  obtain ⟨o', st'', hs', hp'⟩ := sourceStep_total encode hp a
  cases hs.symm.trans hs'
  exact hp'

/-- The threads go on until the last push is delivered, and the next tick encodes it. -/
theorem last_push_encoded (h : SystemRun sws encode timestamp e tr s) (hc : ThroughConverter tr)
    (hsws : ∀ call rows, sws call rows ≠ [])
    (hok : ∀ job ∈ pushedIn (converterOf tr), converted sws job ≠ none) (now later : UInt32) :
    ∃ tr' o s', Steps (SystemStep sws encode) s
        (tr' ++ [(.source (.tick now later), .source o)]) s' ∧
      NoCalls (converterOf tr') ∧ ThroughConverter tr' ∧
      EncodesPush sws (pushedIn (converterOf tr)) (pushedIn (converterOf tr)).length o := by
  obtain ⟨ctr, c', hconv, hcalls, -, hdelivered⟩ := converterRun_completes (systemRun_parts h).1 hok
  obtain ⟨tr', st', hrun', rfl, hc'⟩ := steps_of_converter encode hconv s.stream
  have hrun : SystemRun sws encode timestamp e (tr ++ tr') ⟨c', st'⟩ := Steps.trans h hrun'
  obtain ⟨p, hp⟩ := streams_sourceRun (systemRun_parts hrun).2
  obtain ⟨o, st'', htick, -⟩ := sourceStep_total encode hp (.tick now later)
  refine ⟨tr', o, ⟨c', st''⟩, hrun'.snoc (.source htick), hcalls, hc', ?_⟩
  have hencodes := tick_encodes_delivered (hrun.snoc (.source htick))
    ((hc.append hc').append (throughConverter_tick now later o)) hsws
  have hlen := congrArg List.length hdelivered
  rw [List.length_map, List.length_map] at hlen
  rwa [converterOf_append, hlen, pushedIn_append, pushedIn_noCalls hcalls, List.append_nil]
    at hencodes

end Pc2Drc
