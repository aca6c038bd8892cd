import Pc2Drc.AstrmPacket
import Pc2Drc.Lib.Run

/-! The audio streamer: samples are pushed into a buffer and popped, a packet at a time, by its
timer. -/
namespace Pc2Drc
open Lib

abbrev kSamplesPerSecond : ℕ := 48000

abbrev kSamplesPerPacket : ℕ := 384

/-- The buffer that pushes and ticks share, and the sequence id of the event thread. -/
structure AudioStreamer where
  samples : List Int16
  seqid : UInt16

inductive AudioAction
  | pushSamples (samples : List Int16)
  | tick (timestamp : UInt32)

/-- What a step shows: a push that was accepted, or a packet sent, with a note whether its samples
were taken from the buffer. -/
inductive AudioOutput
  | accepted (samples : List Int16)
  | sent (popped : Bool) (bytes : List UInt8)
  deriving DecidableEq

/-- A sample as a little-endian host stores it. -/
def sampleBytes (s : Int16) : List UInt8 := [loByte s.toUInt16, hiByte s.toUInt16]

/-- The samples in a payload. -/
def samplesOfBytes : List UInt8 → List Int16
  | lo :: hi :: bytes => (u16OfBytes hi lo).toInt16 :: samplesOfBytes bytes
  | _ => []

namespace AudioStreamer

def create : AudioStreamer := ⟨[], 0⟩

def pushSamples (a : AudioStreamer) (samples : List Int16) : AudioStreamer × List AudioOutput :=
  if a.samples.length < kSamplesPerSecond * 32 then
    ({ a with samples := a.samples ++ samples }, [.accepted samples])
  else (a, [])

/-- Returns the samples and whether they come from the buffer. -/
def popSamples (a : AudioStreamer) (count : ℕ) : AudioStreamer × List Int16 × Bool :=
  if a.samples.length < count * 2 then (a, List.replicate count 0, false)
  else ({ a with samples := a.samples.drop count }, a.samples.take count, true)

def audioPacket (samples : List Int16) (seqid : UInt16) (timestamp : UInt32) :
    Except Fault AstrmPacket :=
  let pkt := (AstrmPacket.resetPacket.setPacketType .kAudioData).setFormat .kPcm48KHz
  let pkt := ((pkt.setMonoFlag false).setVibrateFlag false).setSeqId seqid
  (pkt.setTimestamp timestamp).setPayload (samples.flatMap sampleBytes)

def tick (a : AudioStreamer) (timestamp : UInt32) :
    Except Fault (AudioStreamer × List AudioOutput) := do
  let (a, samples, popped) := a.popSamples (kSamplesPerPacket * 2)
  let pkt ← audioPacket samples a.seqid timestamp
  return ({ a with seqid := (a.seqid + 1) &&& 0x3FF }, [.sent popped pkt.getBytes])

def handle (a : AudioStreamer) : AudioAction → Except Fault (AudioStreamer × List AudioOutput)
  | .pushSamples samples => .ok (a.pushSamples samples)
  | .tick timestamp => a.tick timestamp

end AudioStreamer

def AudioStep (a : AudioStreamer) (act : AudioAction) (out : List AudioOutput)
    (a' : AudioStreamer) : Prop :=
  a.handle act = .ok (a', out)

abbrev AudioTrace := List (AudioAction × List AudioOutput)

def AudioRun (tr : AudioTrace) (a : AudioStreamer) : Prop := Steps AudioStep .create tr a

/-- The samples of the accepted pushes, in order. -/
def acceptedIn (out : List AudioOutput) : List Int16 :=
  out.flatMap fun
    | .accepted samples => samples
    | .sent _ _ => []

/-- The packets, each with the note whether its samples were taken from the buffer. -/
def packetsIn (out : List AudioOutput) : List (Bool × List UInt8) :=
  out.filterMap fun
    | .accepted _ => none
    | .sent popped bytes => some (popped, bytes)

/-- The samples a datagram carries, read by the documented layout. -/
def carriedBy (bytes : List UInt8) : List Int16 :=
  ((AstrmDatagram.read bytes).map fun d => samplesOfBytes d.payload).getD []

/-- The samples carried by the packets that took theirs from the buffer. -/
def carriedIn (pkts : List (Bool × List UInt8)) : List Int16 :=
  pkts.flatMap fun (popped, bytes) => if popped then carriedBy bytes else []

def audioOutputs (tr : AudioTrace) : List AudioOutput := tr.flatMap (·.2)

/-- What every packet is read as: PCM at 48 KHz, stereo, with 1536 bytes of payload. -/
def IsAudioData (seqid : ℕ) (bytes : List UInt8) : Prop :=
  ∃ payload, payload.length = 1536 ∧ AstrmDatagram.read bytes = some {
    format := 1, mono := false, vibrate := false, isVideoFormat := false, seqId := seqid,
    payload := payload }

/-- The queue from pushes to packets. -/
structure AudioQueue (tr : AudioTrace) (a : AudioStreamer) : Prop where
  fifo : carriedIn (packetsIn (audioOutputs tr)) ++ a.samples = acceptedIn (audioOutputs tr)
  silence : ∀ bytes, (false, bytes) ∈ packetsIn (audioOutputs tr) →
    carriedBy bytes = List.replicate 768 0
  decodes : ∀ i popped bytes, (packetsIn (audioOutputs tr))[i]? = some (popped, bytes) →
    IsAudioData (i % 1024) bytes

/-- The queue, what became of every push, and what every tick took: a tick takes the samples of one
packet when there are enough for two, and none else. -/
structure AudioFifo (tr : AudioTrace) (a : AudioStreamer) : Prop extends AudioQueue tr a where
  push : ∀ pre samples out post b b', tr = pre ++ (.pushSamples samples, out) :: post →
    AudioRun pre b → AudioStep b (.pushSamples samples) out b' →
    b.samples.length < 1536000 ∧ out = [.accepted samples] ∧
        b'.samples = b.samples ++ samples ∨
      1536000 ≤ b.samples.length ∧ out = [] ∧ b' = b
  pop : ∀ pre ts out post b b', tr = pre ++ (.tick ts, out) :: post →
    AudioRun pre b → AudioStep b (.tick ts) out b' →
    1536 ≤ b.samples.length ∧ b'.samples = b.samples.drop 768 ∧
        (∃ bytes, out = [.sent true bytes] ∧ carriedBy bytes = b.samples.take 768) ∨
      b.samples.length < 1536 ∧ b'.samples = b.samples ∧ ∃ bytes, out = [.sent false bytes]

theorem samplesOfBytes_flatMap (samples : List Int16) :
    samplesOfBytes (samples.flatMap sampleBytes) = samples := by
  induction samples with
  | nil => rfl
  | cons s samples ih => simp [sampleBytes, samplesOfBytes, ih]

theorem length_flatMap_sampleBytes (samples : List Int16) :
    (samples.flatMap sampleBytes).length = 2 * samples.length := by
  induction samples with
  | nil => rfl
  | cons s samples ih =>
    rw [List.flatMap_cons, List.length_append, ih]
    simp [sampleBytes]
    omega

/-- The byte shared by five fields, once all of them are set. -/
theorem insertBits_seqid {hi : UInt8} (h : hi.toNat < 4) :
    (insertBits 0x20 hi 0 2).toNat = 0x20 + hi.toNat := by
  have hall : ∀ n < 4, (insertBits 0x20 (UInt8.ofNat n) 0 2).toNat = 0x20 + n := by decide
  have hi_eq : UInt8.ofNat hi.toNat = hi := by simp
  rw [← hi_eq, hall hi.toNat h, hi_eq]

theorem toNat_next_seqid (seqid : UInt16) :
    ((seqid + 1) &&& 0x3FF).toNat = (seqid.toNat + 1) % 1024 := by
  have hmask : (seqid.toNat + 1) % 65536 &&& 1023 = (seqid.toNat + 1) % 65536 % 1024 :=
    Nat.and_two_pow_sub_one_eq_mod _ 10
  simp [hmask]

/-- The packet is built without a fault and read back field by field. -/
theorem read_audioPacket {samples : List Int16} {seqid : UInt16} (ts : UInt32)
    (hlen : samples.length = 768) (hseq : seqid.toNat < 1024) :
    ∃ p, AudioStreamer.audioPacket samples seqid ts = .ok p ∧
      AstrmDatagram.read p.getBytes = some {
        format := 1, mono := false, vibrate := false, isVideoFormat := false,
        seqId := seqid.toNat, payload := samples.flatMap sampleBytes } := by
  have hbytes : (samples.flatMap sampleBytes).length = 1536 := by
    rw [length_flatMap_sampleBytes, hlen]
  have hlow : (seqid &&& 0xFF).toUInt8.toNat = seqid.toNat % 256 := toNat_loByte seqid
  have hhigh : (seqid >>> 8).toUInt8.toNat = seqid.toNat / 256 := toNat_hiByte seqid
  have hfour : (seqid >>> 8).toUInt8.toNat < 4 := by omega
  have hfirst := insertBits_seqid hfour
  have hfixed : insertBits (insertBits (insertBits (insertBits 0
      AstrmPacketType.kAudioData.toByte 2 3) AstrmFormat.kPcm48KHz.toByte 5 8) 0 4 (4 + 1))
      0 3 (3 + 1) = 0x20 := by decide
  have hhead : ((((((AstrmPacket.resetPacket.setPacketType .kAudioData).setFormat
      .kPcm48KHz).setMonoFlag false).setVibrateFlag false).setSeqId seqid).setTimestamp
      ts).pkt.bytes = insertBits 0x20 (seqid >>> 8).toUInt8 0 2 :: (seqid &&& 0xFF).toUInt8 ::
        0 :: 0 :: (ts &&& 0xFF).toUInt8 :: ((ts >>> 8) &&& 0xFF).toUInt8 ::
        ((ts >>> 16) &&& 0xFF).toUInt8 :: ((ts >>> 24) &&& 0xFF).toUInt8 ::
        List.replicate kMaxAstrmPayloadSize 0 := by
    simp [AstrmPacket.setPacketType, AstrmPacket.setFormat, AstrmPacket.setMonoFlag,
      AstrmPacket.setVibrateFlag, AstrmPacket.setFlag, AstrmPacket.setSeqId,
      AstrmPacket.setTimestamp, AstrmPacket.set, AstrmPacket.get, Buffer.get,
      AstrmPacket.bytes_reset, hfixed]
  have hmax : (samples.flatMap sampleBytes).length ≤ kMaxAstrmPayloadSize := by
    rw [hbytes]
    decide
  obtain ⟨p, hp, hget⟩ := AstrmPacket.getBytes_setPayload hhead hmax
  refine ⟨p, hp, ?_⟩
  rw [hget, hbytes, AstrmDatagram.read, if_pos (by rw [hbytes]; rfl), hfirst, hlow, hhigh]
  simp only [Option.some.injEq, AstrmDatagram.mk.injEq, decide_eq_false_iff_not, and_true]
  omega

/-- What a pop hands out: silence, or the front of the buffer. -/
theorem popSamples_cases (a : AudioStreamer) : ∃ rest samples popped,
    a.popSamples (kSamplesPerPacket * 2) = ({ a with samples := rest }, samples, popped) ∧
      samples.length = 768 ∧
      (1536 ≤ a.samples.length ∧ popped = true ∧ samples = a.samples.take 768 ∧
          rest = a.samples.drop 768 ∨
        a.samples.length < 1536 ∧ popped = false ∧ samples = List.replicate 768 0 ∧
          rest = a.samples) := by
  by_cases hfew : a.samples.length < kSamplesPerPacket * 2 * 2
  · exact ⟨a.samples, List.replicate 768 0, false, if_pos hfew, List.length_replicate,
      Or.inr ⟨hfew, rfl, rfl, rfl⟩⟩
  · have htake : (a.samples.take 768).length = 768 := by
      simp only [kSamplesPerPacket] at hfew
      rw [List.length_take]
      omega
    exact ⟨a.samples.drop 768, a.samples.take 768, true, if_neg hfew, htake,
      Or.inl ⟨Nat.le_of_not_lt hfew, rfl, rfl, rfl⟩⟩

/-- A tick sends one packet of 768 samples. -/
theorem tick_ok {a : AudioStreamer} (ts : UInt32) (hseq : a.seqid.toNat < 1024) :
    ∃ a' popped bytes samples, a.tick ts = .ok (a', [.sent popped bytes]) ∧
      AstrmDatagram.read bytes = some {
        format := 1, mono := false, vibrate := false, isVideoFormat := false,
        seqId := a.seqid.toNat, payload := samples.flatMap sampleBytes } ∧
      samples.length = 768 ∧ a'.seqid.toNat = (a.seqid.toNat + 1) % 1024 ∧
      (1536 ≤ a.samples.length ∧ popped = true ∧ samples = a.samples.take 768 ∧
          a'.samples = a.samples.drop 768 ∨
        a.samples.length < 1536 ∧ popped = false ∧ samples = List.replicate 768 0 ∧
          a'.samples = a.samples) := by
  obtain ⟨rest, samples, popped, hpop, hlen, hcases⟩ := popSamples_cases a
  obtain ⟨p, hp, hread⟩ := read_audioPacket ts hlen hseq
  refine ⟨⟨rest, (a.seqid + 1) &&& 0x3FF⟩, popped, p.getBytes, samples, ?_, hread, hlen,
    toNat_next_seqid a.seqid, hcases⟩
  simp only [AudioStreamer.tick, hpop, hp]
  rfl

theorem pushSamples_cases (a : AudioStreamer) (samples : List Int16) :
    (a.samples.length < 1536000 ∧ a.pushSamples samples =
        ({ a with samples := a.samples ++ samples }, [.accepted samples])) ∨
      (1536000 ≤ a.samples.length ∧ a.pushSamples samples = (a, [])) := by
  by_cases h : a.samples.length < 1536000
  · exact Or.inl ⟨h, if_pos h⟩
  · exact Or.inr ⟨by omega, if_neg h⟩

/-- The queue, with the sequence id that the next packet gets. -/
structure AudioInv (tr : AudioTrace) (a : AudioStreamer) : Prop extends AudioQueue tr a where
  seqid : a.seqid.toNat = (packetsIn (audioOutputs tr)).length % 1024

theorem audioOutputs_snoc (tr : AudioTrace) (act : AudioAction) (out : List AudioOutput) :
    audioOutputs (tr ++ [(act, out)]) = audioOutputs tr ++ out := by
  simp [audioOutputs]

variable {tr : AudioTrace} {a a' : AudioStreamer} {out : List AudioOutput}

theorem audioStep_push {samples : List Int16} (hstep : AudioStep a (.pushSamples samples) out a') :
    a.samples.length < 1536000 ∧ out = [.accepted samples] ∧
        a' = { a with samples := a.samples ++ samples } ∨
      1536000 ≤ a.samples.length ∧ out = [] ∧ a' = a := by
  have heq : a.pushSamples samples = (a', out) := by
    simpa [AudioStep, AudioStreamer.handle] using hstep
  rcases pushSamples_cases a samples with ⟨hlt, hp⟩ | ⟨hge, hp⟩
  · obtain ⟨rfl, rfl⟩ := Prod.mk.inj (hp.symm.trans heq)
    exact Or.inl ⟨hlt, rfl, rfl⟩
  · obtain ⟨rfl, rfl⟩ := Prod.mk.inj (hp.symm.trans heq)
    exact Or.inr ⟨hge, rfl, rfl⟩

/-- A tick that was made sent one packet of 768 samples. -/
theorem audioStep_sent {ts : UInt32} (hseq : a.seqid.toNat < 1024)
    (hstep : AudioStep a (.tick ts) out a') :
    ∃ popped bytes samples, out = [.sent popped bytes] ∧
      AstrmDatagram.read bytes = some {
        format := 1, mono := false, vibrate := false, isVideoFormat := false,
        seqId := a.seqid.toNat, payload := samples.flatMap sampleBytes } ∧
      samples.length = 768 ∧ a'.seqid.toNat = (a.seqid.toNat + 1) % 1024 ∧
      (1536 ≤ a.samples.length ∧ popped = true ∧ samples = a.samples.take 768 ∧
          a'.samples = a.samples.drop 768 ∨
        a.samples.length < 1536 ∧ popped = false ∧ samples = List.replicate 768 0 ∧
          a'.samples = a.samples) := by
  obtain ⟨b, popped, bytes, samples, htick, hsent⟩ := tick_ok ts hseq
  have heq : (b, [.sent popped bytes]) = (a', out) := by
    simpa [AudioStep, AudioStreamer.handle, htick] using hstep
  obtain ⟨rfl, rfl⟩ := Prod.mk.inj heq
  exact ⟨popped, bytes, samples, rfl, hsent⟩

theorem carriedBy_eq {bytes : List UInt8} {samples : List Int16} {d : AstrmDatagram}
    (hread : AstrmDatagram.read bytes = some d) (hd : d.payload = samples.flatMap sampleBytes) :
    carriedBy bytes = samples := by
  rw [carriedBy, hread, Option.map_some, Option.getD_some, hd, samplesOfBytes_flatMap]

theorem audioInv_push {samples : List Int16} (h : AudioInv tr a)
    (hstep : AudioStep a (.pushSamples samples) out a') :
    AudioInv (tr ++ [(.pushSamples samples, out)]) a' := by
  rcases audioStep_push hstep with ⟨-, rfl, rfl⟩ | ⟨-, rfl, rfl⟩
  · have hpkts : packetsIn (audioOutputs tr ++ [.accepted samples]) =
        packetsIn (audioOutputs tr) := by
      simp [packetsIn]
    have hacc : acceptedIn (audioOutputs tr ++ [.accepted samples]) =
        acceptedIn (audioOutputs tr) ++ samples := by
      simp [acceptedIn]
    refine ⟨⟨?_, ?_, ?_⟩, ?_⟩ <;> rw [audioOutputs_snoc, hpkts]
    · rw [hacc, ← h.fifo, List.append_assoc]
    · exact h.silence
    · exact h.decodes
    · exact h.seqid
  · refine ⟨⟨?_, ?_, ?_⟩, ?_⟩ <;> rw [audioOutputs_snoc, List.append_nil]
    · exact h.fifo
    · exact h.silence
    · exact h.decodes
    · exact h.seqid

theorem audioInv_tick {ts : UInt32} (h : AudioInv tr a) (hstep : AudioStep a (.tick ts) out a') :
    AudioInv (tr ++ [(.tick ts, out)]) a' := by
  have hseq : a.seqid.toNat < 1024 := by
    rw [h.seqid]
    exact Nat.mod_lt _ (by decide)
  obtain ⟨popped, bytes, samples, rfl, hread, hlen, hnext, hcases⟩ := audioStep_sent hseq hstep
  have hpkts : packetsIn (audioOutputs tr ++ [.sent popped bytes]) =
      packetsIn (audioOutputs tr) ++ [(popped, bytes)] := by
    simp [packetsIn]
  have hacc : acceptedIn (audioOutputs tr ++ [.sent popped bytes]) =
      acceptedIn (audioOutputs tr) := by
    simp [acceptedIn]
  have hcarried : carriedBy bytes = samples := carriedBy_eq hread rfl
  refine ⟨⟨?_, ?_, ?_⟩, ?_⟩ <;> rw [audioOutputs_snoc, hpkts]
  · rw [hacc, ← h.fifo]
    rcases hcases with ⟨-, rfl, htake, hdrop⟩ | ⟨-, rfl, -, hsame⟩
    · simp [carriedIn, hcarried, htake, hdrop]
    · simp [carriedIn, hsame]
  · intro bytes' hmem
    rcases List.mem_append.mp hmem with hold | hnew
    · exact h.silence bytes' hold
    · obtain ⟨rfl, rfl⟩ : false = popped ∧ bytes' = bytes := by simpa using hnew
      rcases hcases with ⟨-, hfalse, -⟩ | ⟨-, -, hzero, -⟩
      · cases hfalse
      · rw [hcarried, hzero]
  · intro i popped' bytes' hi
    rcases getElem?_snoc hi with hold | ⟨hi_eq, hpair⟩
    · exact h.decodes i popped' bytes' hold
    · obtain ⟨-, rfl⟩ := Prod.mk.inj hpair
      refine ⟨samples.flatMap sampleBytes, ?_, ?_⟩
      · rw [length_flatMap_sampleBytes, hlen]
      · rw [hread, h.seqid, hi_eq]
  · rw [hnext, h.seqid, List.length_append, List.length_singleton]
    omega

theorem audioRun_inv (h : AudioRun tr a) : AudioInv tr a := by
  refine Steps.invariant (P := AudioInv) h ⟨⟨rfl, ?_, ?_⟩, rfl⟩ ?_
  · intro bytes hmem
    cases hmem
  · intro i popped bytes hi
    cases hi
  · intro tr a act out a' hinv hstep
    cases act with
    | pushSamples samples => exact audioInv_push hinv hstep
    | tick ts => exact audioInv_tick hinv hstep

theorem AudioRun.seqid_lt (h : AudioRun tr a) : a.seqid.toNat < 1024 := by
  rw [(audioRun_inv h).seqid]
  exact Nat.mod_lt _ (by decide)

theorem audioStep_enabled (hseq : a.seqid.toNat < 1024) (act : AudioAction) :
    ∃ out a', AudioStep a act out a' ∧ a'.seqid.toNat < 1024 := by
  cases act with
  | pushSamples samples =>
    refine ⟨(a.pushSamples samples).2, (a.pushSamples samples).1, rfl, ?_⟩
    rcases pushSamples_cases a samples with ⟨-, hp⟩ | ⟨-, hp⟩
    · simpa [hp] using hseq
    · simpa [hp] using hseq
  | tick ts =>
    obtain ⟨a', popped, bytes, samples, htick, -, -, hnext, -⟩ := tick_ok ts hseq
    refine ⟨_, a', htick, ?_⟩
    rw [hnext]
    exact Nat.mod_lt _ (by decide)

/-- Every sequence of pushes and ticks runs on without a fault. -/
theorem audioRun_continues (h : AudioRun tr a) (acts : List AudioAction) :
    ∃ tr' a', Steps AudioStep a tr' a' ∧ tr'.map Prod.fst = acts := by
  obtain ⟨tr', a', hrun, hacts, -⟩ := Steps.total (s := a)
    (P := fun a => a.seqid.toNat < 1024) h.seqid_lt
    (fun _ act hseq => audioStep_enabled hseq act) acts
  exact ⟨tr', a', hrun, hacts⟩

theorem audioRun_total (acts : List AudioAction) :
    ∃ tr a, AudioRun tr a ∧ tr.map Prod.fst = acts :=
  audioRun_continues .refl acts

/-- What a tick does to the buffer, and what it sends. -/
theorem audioStep_tick {ts : UInt32} (hseq : a.seqid.toNat < 1024)
    (hstep : AudioStep a (.tick ts) out a') :
    1536 ≤ a.samples.length ∧ a'.samples = a.samples.drop 768 ∧
        (∃ bytes, out = [.sent true bytes] ∧ carriedBy bytes = a.samples.take 768) ∨
      a.samples.length < 1536 ∧ a'.samples = a.samples ∧ ∃ bytes, out = [.sent false bytes] := by
  obtain ⟨popped, bytes, samples, rfl, hread, -, -, hcases⟩ := audioStep_sent hseq hstep
  rcases hcases with ⟨hmany, rfl, rfl, hdrop⟩ | ⟨hfew, rfl, -, hsame⟩
  · exact Or.inl ⟨hmany, hdrop, bytes, rfl, carriedBy_eq hread rfl⟩
  · exact Or.inr ⟨hfew, hsame, bytes, rfl⟩

theorem audioRun_fifo (h : AudioRun tr a) : AudioFifo tr a := by
  refine ⟨(audioRun_inv h).toAudioQueue, ?_, ?_⟩
  · intro pre samples out post b b' _ _ hstep
    rcases audioStep_push hstep with ⟨hlt, hout, rfl⟩ | hfull
    · exact Or.inl ⟨hlt, hout, rfl⟩
    · exact Or.inr hfull
  · intro pre ts out post b b' _ hb hstep
    exact audioStep_tick hb.seqid_lt hstep

/-- Of two packets that are pushed to an empty buffer, the first of two ticks sends one; the other
stays. -/
theorem twoPackets_run {l l' : List Int16} (ts ts' : UInt32) (hl : l.length = 768)
    (hl' : l'.length = 768) : ∃ tr a first second, AudioRun tr a ∧
      tr.map Prod.fst = [.pushSamples l, .pushSamples l', .tick ts, .tick ts'] ∧
      packetsIn (audioOutputs tr) = [(true, first), (false, second)] ∧
      carriedBy first = l ∧ carriedBy second = List.replicate 768 0 ∧ a.samples = l' := by
  have hpush : AudioStep .create (.pushSamples l) [.accepted l] ⟨l, 0⟩ := rfl
  have hpush' : AudioStep ⟨l, 0⟩ (.pushSamples l') [.accepted l'] ⟨l ++ l', 0⟩ := by
    rcases pushSamples_cases ⟨l, 0⟩ l' with ⟨-, h⟩ | ⟨hfull, -⟩
    · exact congrArg Except.ok h
    · simp only [hl] at hfull
      omega
  have hboth : AudioRun [(_, _), (_, _)] ⟨l ++ l', 0⟩ := (Steps.single hpush).snoc hpush'
  have hlen : (l ++ l').length = 1536 := by rw [List.length_append, hl, hl']
  obtain ⟨out, a, htick, -⟩ := audioStep_enabled hboth.seqid_lt (.tick ts)
  rcases audioStep_tick hboth.seqid_lt htick with ⟨-, hdrop, first, rfl, hfirst⟩ | ⟨hfew, -⟩
  · rw [List.take_left' hl] at hfirst
    rw [List.drop_left' hl] at hdrop
    have hrun : AudioRun [(_, _), (_, _), (_, _)] a := hboth.snoc htick
    obtain ⟨out', a', htick', -⟩ := audioStep_enabled hrun.seqid_lt (.tick ts')
    rcases audioStep_tick hrun.seqid_lt htick' with ⟨hmany, -⟩ | ⟨-, hsame, second, rfl⟩
    · rw [hdrop, hl'] at hmany
      omega
    · have hall : AudioRun [(_, _), (_, _), (_, _), (_, _)] a' := hrun.snoc htick'
      refine ⟨_, a', first, second, hall, rfl, rfl, hfirst, ?_, hsame.trans hdrop⟩
      exact (audioRun_inv hall).silence second (by simp [audioOutputs, packetsIn])
  · exact (Nat.not_lt_of_le hlen.ge hfew).elim

/-- Pushes and ticks run in every order, and no sample is lost, doubled or reordered between the
accepted pushes and the packets. -/
theorem audio_lossless_fifo :
    (∀ acts, ∃ tr a, AudioRun tr a ∧ tr.map Prod.fst = acts) ∧
      ∀ tr a, AudioRun tr a → AudioFifo tr a := by
  refine ⟨audioRun_total, ?_⟩
  intro tr a h
  exact audioRun_fifo h

/-- Two packets are pushed; the first tick sends one, the second finds too few samples. -/
theorem audio_lossless_fifo_underflow : ∃ tr a first second, AudioRun tr a ∧
    tr.map Prod.fst = [.pushSamples (List.replicate 768 1), .pushSamples (List.replicate 768 2),
      .tick 0, .tick 8000] ∧
    packetsIn (audioOutputs tr) = [(true, first), (false, second)] ∧
    carriedBy first = List.replicate 768 1 ∧ carriedBy second = List.replicate 768 0 ∧
    a.samples = List.replicate 768 2 ∧ AudioFifo tr a := by
  obtain ⟨tr, a, first, second, hrun, hacts, hpackets, hfirst, hsecond, hrest⟩ :=
    twoPackets_run 0 8000 (List.length_replicate (a := 1)) (List.length_replicate (a := 2))
  exact ⟨tr, a, first, second, hrun, hacts, hpackets, hfirst, hsecond, hrest,
    audio_lossless_fifo.2 tr a hrun⟩

end Pc2Drc
