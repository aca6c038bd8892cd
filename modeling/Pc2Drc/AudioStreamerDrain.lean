import Pc2Drc.AudioStreamer

/-! What stays in the audio buffer: `PopSamples` asks for twice the samples that it takes, so the
last packet's worth of a sound is kept until more is pushed. -/
namespace Pc2Drc
open Lib

variable {tr : AudioTrace} {a a' : AudioStreamer} {out : List AudioOutput} {ts : UInt32}

/-- Enough samples for one packet, but not for the two that `PopSamples` asks for. -/
def InGap (a : AudioStreamer) : Prop := 768 ≤ a.samples.length ∧ a.samples.length < 1536

/-- A packet of silence is sent only when the buffer cannot fill one. -/
def SilentOnlyWhenShort (tr : AudioTrace) : Prop :=
  ∀ pre ts out a, pre ++ [(.tick ts, out)] <+: tr → AudioRun pre a →
    ∀ bytes, .sent false bytes ∈ out → a.samples.length < 768

def NoTickInGap (tr : AudioTrace) : Prop :=
  ∀ pre ts out a, pre ++ [(.tick ts, out)] <+: tr → AudioRun pre a → ¬ InGap a

/-- A tick never brings the buffer below one packet. -/
theorem short_tick_iff (hseq : a.seqid.toNat < 1024) (h : AudioStep a (.tick ts) out a') :
    a'.samples.length < 768 ↔ a.samples.length < 768 := by
  rcases audioStep_tick hseq h with ⟨hmany, hdrop, -⟩ | ⟨-, hsame, -⟩
  · rw [hdrop, List.length_drop]
    omega
  · rw [hsame]

theorem short_ticks_iff {ticks : AudioTrace} {stamps : List UInt32} (hrun : AudioRun tr a)
    (h : Steps AudioStep a ticks a') (hticks : ticks.map Prod.fst = stamps.map .tick) :
    a'.samples.length < 768 ↔ a.samples.length < 768 := by
  induction h generalizing stamps with
  | refl => rfl
  | @snoc ticks b c act out hpre hstep ih =>
    rw [List.map_append] at hticks
    obtain ⟨init, last, hstamps, hinit, hlast⟩ := List.map_eq_append_iff.mp hticks.symm
    cases last with
    | nil => cases hlast
    | cons ts last =>
      obtain ⟨rfl, -⟩ := List.cons.inj hlast
      have hb : AudioRun (tr ++ ticks) b := Steps.trans hrun hpre
      exact (short_tick_iff hb.seqid_lt hstep).trans (ih hinit.symm)

theorem AudioRun.unique {b : AudioStreamer} (h : AudioRun tr a) (h' : AudioRun tr b) : a = b := by
  refine Steps.deterministic h h' ?_
  intro s act out t t' hstep hstep'
  have heq : Except.ok (t, out) = Except.ok (t', out) := hstep.symm.trans hstep'
  cases heq
  rfl

/-- The tick at a place of a run, from the state reached there. -/
theorem audioRun_tick_at {pre : AudioTrace} {b : AudioStreamer} (h : AudioRun tr a)
    (hpre : pre ++ [(.tick ts, out)] <+: tr) (hb : AudioRun pre b) :
    ∃ c, AudioStep b (.tick ts) out c := by
  obtain ⟨post, rfl⟩ := hpre
  rw [List.append_assoc] at h
  obtain ⟨u, c, hu, hstep, -⟩ := Steps.split h
  obtain rfl := hb.unique hu
  exact ⟨c, hstep⟩

theorem silentOnlyWhenShort_iff (h : AudioRun tr a) : SilentOnlyWhenShort tr ↔ NoTickInGap tr := by
  constructor
  · rintro hsilent pre ts out b hpre hb ⟨hlow, hhigh⟩
    obtain ⟨c, hstep⟩ := audioRun_tick_at h hpre hb
    rcases audioStep_tick hb.seqid_lt hstep with ⟨hmany, -⟩ | ⟨-, -, bytes, rfl⟩
    · omega
    · have hshort := hsilent pre ts _ b hpre hb bytes (List.mem_singleton_self _)
      omega
  · intro hgap pre ts out b hpre hb bytes hmem
    obtain ⟨c, hstep⟩ := audioRun_tick_at h hpre hb
    rcases audioStep_tick hb.seqid_lt hstep with ⟨-, -, bytes', rfl, -⟩ | ⟨hfew, -⟩
    · simp at hmem
    · by_contra hlow
      exact hgap pre ts out b hpre hb ⟨Nat.le_of_not_lt hlow, hfew⟩

/-- Ticks alone leave less than a packet only if there was less before them, however many they are;
and a run sends silence early exactly when one of its ticks comes in the gap. -/
theorem audio_drained_iff (h : AudioRun tr a) :
    (∀ stamps : List UInt32, a.samples.length / 768 ≤ stamps.length →
      ∃ ticks a', Steps AudioStep a ticks a' ∧ ticks.map Prod.fst = stamps.map .tick ∧
        (a'.samples.length < 768 ↔ a.samples.length < 768)) ∧
      (SilentOnlyWhenShort tr ↔ NoTickInGap tr) := by
  refine ⟨?_, silentOnlyWhenShort_iff h⟩
  intro stamps _
  obtain ⟨ticks, a', hrun, hacts⟩ := audioRun_continues h (stamps.map .tick)
  exact ⟨ticks, a', hrun, hacts, short_ticks_iff h hrun hacts⟩

/-- Two packets and two ticks, the second of them in the gap: a packet stays, after more ticks
too. -/
theorem audio_drained_iff_two_packets : ∃ tr a first second, AudioRun tr a ∧
    tr.map Prod.fst = [.pushSamples (List.replicate 768 1), .pushSamples (List.replicate 768 2),
      .tick 0, .tick 8000] ∧
    packetsIn (audioOutputs tr) = [(true, first), (false, second)] ∧ a.samples.length = 768 ∧
    (∃ ticks a', Steps AudioStep a ticks a' ∧ ticks.map Prod.fst = [.tick 16000, .tick 24000] ∧
      ¬ a'.samples.length < 768) ∧
    (SilentOnlyWhenShort tr ↔ NoTickInGap tr) := by
  obtain ⟨tr, a, first, second, hrun, hacts, hpackets, -, -, hrest⟩ :=
    twoPackets_run 0 8000 (List.length_replicate (a := 1)) (List.length_replicate (a := 2))
  have hlen : a.samples.length = 768 := by rw [hrest, List.length_replicate]
  obtain ⟨hticks, hsilent⟩ := audio_drained_iff hrun
  obtain ⟨ticks, a', hrun', hacts', hshort⟩ := hticks [16000, 24000] (by rw [hlen]; decide)
  refine ⟨tr, a, first, second, hrun, hacts, hpackets, hlen, ⟨ticks, a', hrun', hacts', ?_⟩,
    hsilent⟩
  rw [hshort, hlen]
  decide

/-- A whole packet is pushed; the tick after it sends silence and leaves the packet where it is. -/
theorem audio_packet_kept : ∃ tr a, AudioRun tr a ∧
    tr.map Prod.fst = [.pushSamples (List.replicate 768 1), .tick 0] ∧
    ¬ a.samples.length < 768 ∧ ¬ SilentOnlyWhenShort tr := by
  have hpush : AudioStep .create (.pushSamples (List.replicate 768 1))
      [.accepted (List.replicate 768 1)] ⟨List.replicate 768 1, 0⟩ := rfl
  obtain ⟨out, a, htick, -⟩ := audioStep_enabled (a := ⟨List.replicate 768 1, 0⟩) (by decide)
    (.tick 0)
  have hrun : AudioRun [(_, _), (_, _)] a := .snoc (.single hpush) htick
  refine ⟨_, a, hrun, rfl, ?_, ?_⟩
  · rw [short_tick_iff (by decide) htick, List.length_replicate]
    decide
  · intro hsilent
    refine (silentOnlyWhenShort_iff hrun).mp hsilent _ 0 _ _ (List.prefix_refl _)
      (.single hpush) ?_
    rw [InGap, List.length_replicate]
    decide

end Pc2Drc
