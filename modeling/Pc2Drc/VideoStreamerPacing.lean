import Pc2Drc.VideoStreamer

/-! Frame pacing against the true time of which the streamer sees the low 32 bits. -/
namespace Pc2Drc
open Lib

/-- The time until the first expiration, as `timerfd_settime` is given it. -/
structure Itimerspec where
  seconds : ℕ
  nanoseconds : ℕ

def timerSpec (ns : ℕ) : Itimerspec := ⟨ns / 1000000000, ns % 1000000000⟩

/-- The delay that is armed, in nanoseconds. -/
def Itimerspec.delay (its : Itimerspec) : ℕ := its.seconds * 1000000000 + its.nanoseconds

/-- The loop in time: `last` is when its timer was armed, in microseconds, and `armed` the delay, in
nanoseconds. -/
structure PacedStream where
  streamer : VideoStreamer
  last : ℕ
  armed : ℕ

/-- A tick happens at `now` and reads the clock once more at `later`. -/
inductive PacedAction
  | other (a : StreamAction)
  | tick (now later : ℕ) (encoded : H264ChunkArray)

/-- The timer never fires before its delay has passed, and the clock never runs back. -/
inductive PacedStep : PacedStream → PacedAction → List StreamOutput → PacedStream → Prop
  | other {s : PacedStream} {a : StreamAction} {out : List StreamOutput} {v : VideoStreamer} :
      (∀ now later encoded, a ≠ .tick now later encoded) → StreamStep s.streamer a out v →
      PacedStep s (.other a) out { s with streamer := v }
  | tick {s : PacedStream} {now later ns : ℕ} {encoded : H264ChunkArray}
      {out : List StreamOutput} {v : VideoStreamer} :
      s.last + s.armed / 1000 ≤ now → now ≤ later →
      StreamStep s.streamer (.tick now.toUInt32 later.toUInt32 encoded) out v →
      .rearmTimer ns ∈ out →
      PacedStep s (.tick now later encoded) out ⟨v, later, (timerSpec ns).delay⟩

abbrev PacedTrace := List (PacedAction × List StreamOutput)

/-- The runs of a loop that starts at `start`; its timer is first armed with one nanosecond. -/
def PacedRun (start : ℕ) (tr : PacedTrace) (s : PacedStream) : Prop :=
  Steps PacedStep ⟨.create start.toUInt32, start, (timerSpec 1).delay⟩ tr s

/-- The delays armed in a step, in nanoseconds. -/
def armedIn (out : List StreamOutput) : List ℕ :=
  out.filterMap fun
    | .rearmTimer ns => some ns
    | _ => none

structure PacedTick where
  now : ℕ
  later : ℕ
  armed : List ℕ

def tickOf : PacedAction × List StreamOutput → Option PacedTick
  | (.tick now later _, out) => some ⟨now, later, armedIn out⟩
  | (.other _, _) => none

def ticksIn (tr : PacedTrace) : List PacedTick := tr.filterMap tickOf

/-- No tick is as late as half the range of the clock. -/
def InTime (start : ℕ) (ticks : List PacedTick) : Prop :=
  ∀ n t, ticks[n]? = some t → t.later < start + (n + 1) * 16683 + (2 ^ 31 - 16683)

/-- What pacing asks of a tick that `n` others precede. -/
structure OnSchedule (start n : ℕ) (t : PacedTick) : Prop where
  notEarly : start + n * 16683 ≤ t.now
  armed : ∃ delay : ℕ, t.armed = [delay * 1000] ∧ 1000 ≤ delay ∧ delay ≤ 16683 ∧
    (delay : ℤ) = max 1000 (start + (n + 1) * 16683 - t.later : ℤ)

@[simp]
theorem delay_timerSpec (ns : ℕ) : (timerSpec ns).delay = ns := Nat.div_add_mod' ns 1000000000

theorem toInt_clock (t : ℕ) : t.toUInt32.toInt32.toInt = (t : ℤ).bmod (2 ^ 32) := by
  simp

theorem clock_add (t : ℕ) : t.toUInt32.toInt32 + 16683 = (t + 16683).toUInt32.toInt32 := by
  apply Int32.toInt_inj.mp
  rw [Int32.toInt_add, toInt_clock, toInt_clock]
  simp

/-- Two readings less than half the range apart have the difference of their times. -/
theorem clock_sub {t u : ℕ} (hlo : u ≤ t + 2 ^ 31) (hhi : t < u + 2 ^ 31) :
    (t.toUInt32.toInt32 - u.toUInt32.toInt32).toInt = (t : ℤ) - u := by
  rw [Int32.toInt_sub, toInt_clock, toInt_clock, Int.bmod_sub_bmod, Int.sub_bmod_bmod]
  exact Int.bmod_eq_of_le (by omega) (by omega)

theorem armedIn_append (out out' : List StreamOutput) :
    armedIn (out ++ out') = armedIn out ++ armedIn out' := List.filterMap_append

/-- The end of a tick, with the schedule at `due` and the clock at `later`. -/
theorem rearm_eq {v : VideoStreamer} {due later : ℕ} (hv : v.nextTimestamp = due.toUInt32.toInt32)
    (hdue : due ≤ later) (hlate : later < due + 16683 + 2 ^ 31) :
    (v.rearm later.toUInt32).1.nextTimestamp = (due + 16683).toUInt32.toInt32 ∧
      (v.rearm later.toUInt32).2 = [.rearmTimer (max 1000 (due + 16683 - later) * 1000)] := by
  have hsub : ((due + 16683).toUInt32.toInt32 - later.toUInt32.toInt32).toInt =
      ((due + 16683 : ℕ) : ℤ) - later := clock_sub (by omega) (by omega)
  have hthousand : (1000 : Int32).toInt = 1000 := rfl
  unfold VideoStreamer.rearm
  rw [hv, clock_add]
  refine ⟨rfl, ?_⟩
  simp only [Int32.lt_iff_toInt_lt, hsub, hthousand]
  split_ifs with hlt
  · have hmax : max 1000 (due + 16683 - later) = 1000 := by omega
    rw [hmax]
    rfl
  · have hmax : max 1000 (due + 16683 - later) = due + 16683 - later := by omega
    have hnat : (((due + 16683 : ℕ) : ℤ) - later).toNat = due + 16683 - later := by omega
    rw [hmax, hsub, hnat]

theorem armedIn_sendPending (v : VideoStreamer) : armedIn v.sendPending.2 = [] := by
  by_cases h : v.vstrmInited = true
  · rw [VideoStreamer.sendPending, if_pos h]
    simp [armedIn, List.filterMap_map]
  · rw [VideoStreamer.sendPending, if_neg h]
    rfl

theorem nextTimestamp_latched (v : VideoStreamer) : v.latched.nextTimestamp = v.nextTimestamp := by
  unfold VideoStreamer.latched VideoStreamer.latchOnCurrentFrame VideoStreamer.latchOnCurrentChunks
    VideoStreamer.sendPending
  split_ifs <;> rfl

variable {start due now later : ℕ} {v v' : VideoStreamer} {encoded : H264ChunkArray}
  {out : List StreamOutput} {tr : PacedTrace} {s s' : PacedStream} {a : PacedAction}

/-- A tick at its time or later moves the schedule on and arms what is left until then. -/
theorem tick_paced (hv : v.nextTimestamp = due.toUInt32.toInt32) (hdue : due ≤ later)
    (hlate : later < due + 16683 + 2 ^ 31)
    (hs : StreamStep v (.tick now.toUInt32 later.toUInt32 encoded) out v') :
    v'.nextTimestamp = (due + 16683).toUInt32.toInt32 ∧
      armedIn out = [max 1000 (due + 16683 - later) * 1000] := by
  obtain ⟨u, gen, hgen, rfl, rfl⟩ := VideoStreamer.tick_inv hs
  obtain ⟨-, -, -, -, hnext, hcases⟩ := VideoStreamer.generateFrame_inv hgen
  have hu : u.nextTimestamp = due.toUInt32.toInt32 := by
    rw [hnext, nextTimestamp_latched, hv]
  obtain ⟨hnext', harm⟩ := rearm_eq hu hdue hlate
  have hgenerated : armedIn gen = [] := by
    rcases hcases with ⟨-, rfl⟩ | ⟨g, -, -, rfl⟩
    · rfl
    · rfl
  refine ⟨hnext', ?_⟩
  rw [armedIn_append, armedIn_append, armedIn_sendPending, hgenerated, harm]
  rfl

/-- A run so far: the schedule stands at the tick to come, which cannot be early. -/
structure PacedInv (start : ℕ) (tr : PacedTrace) (s : PacedStream) : Prop where
  next : s.streamer.nextTimestamp = (start + (ticksIn tr).length * 16683).toUInt32.toInt32
  due : start + (ticksIn tr).length * 16683 ≤ s.last + s.armed / 1000
  onSchedule : ∀ n t, (ticksIn tr)[n]? = some t → OnSchedule start n t

theorem ticksIn_snoc (tr : PacedTrace) (a : PacedAction) (out : List StreamOutput) :
    ticksIn (tr ++ [(a, out)]) = ticksIn tr ++ (tickOf (a, out)).toList := by
  rw [ticksIn, List.filterMap_append]
  cases h : tickOf (a, out) <;> simp [ticksIn, h]

theorem InTime.of_append {ticks ticks' : List PacedTick} (h : InTime start (ticks ++ ticks')) :
    InTime start ticks := by
  intro n t hn
  have hlt := (List.getElem?_eq_some_iff.mp hn).1
  exact h n t (by rw [List.getElem?_append_left hlt, hn])

theorem pacedInv_other {b : StreamAction} (h : PacedInv start tr s)
    (hb : ∀ now later encoded, b ≠ .tick now later encoded)
    (hs : StreamStep s.streamer b out v) :
    PacedInv start (tr ++ [(.other b, out)]) { s with streamer := v } := by
  have hticks : ticksIn (tr ++ [(.other b, out)]) = ticksIn tr := by
    rw [ticksIn_snoc]
    exact List.append_nil _
  have hnext : v.nextTimestamp = s.streamer.nextTimestamp := by
    cases b with
    | tick now later encoded => exact (hb now later encoded rfl).elim
    | pushFrame | pushH264Chunks | setFrameRate | resync =>
      cases hs
      rfl
  refine ⟨?_, ?_, ?_⟩ <;> rw [hticks]
  · exact hnext.trans h.next
  · exact h.due
  · exact h.onSchedule

/-- The delay counted in whole numbers: less than nothing is waited for as a millisecond. -/
theorem cast_delay (due later : ℕ) :
    ((max 1000 (due - later) : ℕ) : ℤ) = max 1000 ((due : ℤ) - later) := by
  omega

theorem pacedInv_tick {ns : ℕ} (h : PacedInv start tr s) (hnow : s.last + s.armed / 1000 ≤ now)
    (hlater : now ≤ later)
    (hs : StreamStep s.streamer (.tick now.toUInt32 later.toUInt32 encoded) out v)
    (hns : .rearmTimer ns ∈ out)
    (hlate : InTime start (ticksIn (tr ++ [(.tick now later encoded, out)]))) :
    PacedInv start (tr ++ [(.tick now later encoded, out)]) ⟨v, later, (timerSpec ns).delay⟩ := by
  have hticks : ticksIn (tr ++ [(.tick now later encoded, out)]) =
      ticksIn tr ++ [⟨now, later, armedIn out⟩] := ticksIn_snoc _ _ _
  rw [hticks] at hlate
  have hlast : later < start + ((ticksIn tr).length + 1) * 16683 + (2 ^ 31 - 16683) :=
    hlate (ticksIn tr).length ⟨now, later, armedIn out⟩ (by simp)
  have hdue := h.due
  obtain ⟨hnext, harmed⟩ := tick_paced h.next (by omega) (by omega) hs
  have hns' : ns = max 1000 (start + (ticksIn tr).length * 16683 + 16683 - later) * 1000 := by
    have hmem : ns ∈ armedIn out := List.mem_filterMap.mpr ⟨_, hns, rfl⟩
    rw [harmed] at hmem
    exact List.mem_singleton.mp hmem
  refine ⟨?_, ?_, ?_⟩
  · rw [hticks, List.length_append, List.length_singleton, Nat.add_one_mul, ← Nat.add_assoc]
    exact hnext
  · have hdelay : (timerSpec ns).delay / 1000 =
        max 1000 (start + (ticksIn tr).length * 16683 + 16683 - later) := by
      rw [delay_timerSpec, hns']
      exact Nat.mul_div_cancel _ (by decide)
    rw [hticks, List.length_append, List.length_singleton, hdelay, Nat.add_one_mul,
      ← Nat.add_assoc]
    exact Nat.sub_le_iff_le_add'.mp (le_max_right _ _)
  · rw [hticks]
    intro m t hm
    rcases getElem?_snoc hm with hold | ⟨rfl, rfl⟩
    · exact h.onSchedule m t hold
    · refine ⟨le_trans hdue hnow, _, harmed, le_max_left _ _, ?_, ?_⟩
      · omega
      · have hcast : ((start + (ticksIn tr).length * 16683 + 16683 : ℕ) : ℤ) =
            start + ((ticksIn tr).length + 1) * 16683 := by omega
        rw [cast_delay, hcast]

theorem pacedRun_inv (h : PacedRun start tr s) (hlate : InTime start (ticksIn tr)) :
    PacedInv start tr s := by
  -- the bound on lateness is one on the whole trace, so it is carried along the run
  refine Steps.invariant (P := fun tr s => InTime start (ticksIn tr) → PacedInv start tr s)
    h ?_ ?_ hlate
  · intro _
    refine ⟨?_, ?_, ?_⟩
    · simp [ticksIn, VideoStreamer.create]
    · simp [ticksIn]
    · intro n t hn
      cases hn
  · intro tr s a out s' ih hs hlate
    have hprev : PacedInv start tr s := by
      rw [ticksIn_snoc] at hlate
      exact ih hlate.of_append
    cases hs with
    | other hb hs => exact pacedInv_other hprev hb hs
    | tick hnow hlater hs hns => exact pacedInv_tick hprev hnow hlater hs hns hlate

/-- Every tick of every run is paced, whatever the clock shows of its time. -/
theorem frame_pacing (h : PacedRun start tr s) (hlate : InTime start (ticksIn tr)) :
    ∀ n t, (ticksIn tr)[n]? = some t → OnSchedule start n t :=
  (pacedRun_inv h hlate).onSchedule

/-- The theorem at a loop that starts just before the clock changes its sign, and whose second tick
is 40 milliseconds late. -/
theorem frame_pacing_wrap : ∃ tr s, PacedRun 2147483640 tr s ∧
    ticksIn tr = [⟨2147483640, 2147483641, [16682000]⟩, ⟨2147540323, 2147540323, [1000000]⟩] ∧
    ∀ n t, (ticksIn tr)[n]? = some t → OnSchedule 2147483640 n t := by
  have hrun : PacedRun 2147483640
      [(.tick 2147483640 2147483641 (asChunkArray []), [.rearmTimer 16682000]),
        (.tick 2147540323 2147540323 (asChunkArray []), [.rearmTimer 1000000])] _ :=
    .cons (.tick (by decide) (by decide) rfl (List.mem_singleton_self _))
      (.cons (.tick (by decide) (by decide) rfl (List.mem_singleton_self _)) .refl)
  refine ⟨_, _, hrun, rfl, frame_pacing hrun ?_⟩
  rintro (_ | _ | n) t ht
  · cases ht
    decide
  · cases ht
    decide
  · cases ht

end Pc2Drc
