import Pc2Drc.CabacStream
import Pc2Drc.H264Chunks
import Mathlib.Tactic.Positivity

/-! The macroblocks of a frame go through the coder, and the chunks that are cut from its output
while it runs are, put together again, the data that a decoder needs. -/
namespace Pc2Drc

open Lib

variable {ctxCount : ℕ} {bs pre : List UInt8} {I : CodeInterval} {cb : Cabac}
  {calls : List CabacCall} {iFrame : ℕ}

/-- What a macroblock gives the coder: at least one symbol with a context, its type or that it is
skipped, and its samples if it is not coded. -/
structure MbWrite (ctxCount : ℕ) where
  calls : List CabacCall
  samples : Option (List UInt8)
  allowed : ∀ c ∈ calls, c.Allowed ctxCount
  codes : ∃ c b, .decision c b ∈ calls

/-- All macroblocks but the first one start with the sign that the slice has not ended. -/
def MbWrite.allCalls (m : MbWrite ctxCount) (first : Bool) : List CabacCall :=
  if first then m.calls else .terminal :: m.calls

/-- One round of the loop of `x264_slice_write`. -/
def Cabac.writeMb (cb : Cabac) (iFrame : ℕ) (first : Bool) (m : MbWrite ctxCount) : Cabac :=
  let cb := (m.allCalls first).foldl CabacCall.run cb
  match m.samples with
  | none => cb
  | some samples => cb.encodePcm iFrame samples

/-- The coder after macroblock `k`. -/
def Cabac.afterMb (cb : Cabac) (iFrame : ℕ) (mbs : ℕ → MbWrite ctxCount) : ℕ → Cabac
  | 0 => cb.writeMb iFrame true (mbs 0)
  | k + 1 => (cb.afterMb iFrame mbs k).writeMb iFrame false (mbs (k + 1))

theorem length_modifyLast (f : UInt8 → UInt8) (l : List UInt8) :
    (l.modifyLast f).length = l.length := by
  rcases List.eq_nil_or_concat l with rfl | ⟨l, c, rfl⟩
  · rfl
  · rw [List.concat_eq_append, List.modifyLast_concat]
    simp

/-- The bytes that are written or held back. -/
def Cabac.total (cb : Cabac) : ℕ :=
  cb.buf.length + cb.iBytesOutstanding

theorem total_le_putbyte (cb : Cabac) : cb.total ≤ cb.putbyte.total := by
  simp only [Cabac.putbyte, Cabac.total, Cabac.writeOut]
  split_ifs
  · exact Nat.add_le_add_left (Nat.le_succ _) _
  · simp [length_modifyLast]
  · exact le_rfl

theorem total_le_encodeUeBypassLoop (x fuel k i : ℕ) (cb : Cabac) :
    cb.total ≤ (Cabac.encodeUeBypassLoop x fuel k i cb).total := by
  induction fuel generalizing k i cb with
  | zero => exact le_rfl
  | succ fuel ih =>
    rw [Cabac.encodeUeBypassLoop]
    have hput := total_le_putbyte { cb with
      iLow := (cb.iLow <<< i) + ((x >>> (k - i)) &&& 0xff) * cb.iRange
      iQueue := cb.iQueue + i }
    split_ifs
    · exact le_trans hput (ih ..)
    · exact hput

theorem total_le_run (c : CabacCall) (cb : Cabac) : cb.total ≤ (c.run cb).total := by
  cases c with
  | decision i b =>
    simp only [CabacCall.run, Cabac.encodeDecision, Cabac.encodeRenorm]
    refine le_trans ?_ (total_le_putbyte _)
    simp only [Cabac.total]
    split_ifs <;> exact le_rfl
  | bypass b =>
    refine le_trans ?_ (total_le_putbyte _)
    exact le_rfl
  | ueBypass e v => exact total_le_encodeUeBypassLoop ..
  | terminal =>
    refine le_trans ?_ (total_le_putbyte _)
    exact le_rfl

theorem total_le_calls (calls : List CabacCall) (cb : Cabac) :
    cb.total ≤ (calls.foldl CabacCall.run cb).total := by
  induction calls generalizing cb with
  | nil => exact le_rfl
  | cons c calls ih => exact le_trans (total_le_run c cb) (ih _)

/-- The bytes of the interval are as many as its bits say. -/
theorem Coding.total_bits (h : Coding pre I cb) :
    8 * (cb.total - pre.length) + 9 ≤ I.bits ∧ I.bits ≤ 8 * (cb.total - pre.length) + 17 ∧
      pre.length ≤ cb.total := by
  obtain ⟨seg, w, hw, hold⟩ := h.holds
  have hbits := hold.bits
  have hwide := hold.wide
  have htotal : cb.total = pre.length + seg.length + cb.iBytesOutstanding := by
    rw [Cabac.total, hold.buf, List.length_append]
  omega

/-- The flush adds at least the two bytes that the register holds. -/
theorem Coding.total_flush (h : Coding pre I cb) (hr : 2 ≤ I.range) (iFrame : ℕ) :
    cb.total + 2 ≤ (cb.encodeFlush iFrame).buf.length := by
  obtain ⟨seg, pad, hbuf, -, hbits⟩ := coding_flush h hr iFrame
  have hlen := congrArg List.length hbits
  rw [length_bitsOfBytes, List.length_append, length_bitsOfNat, length_bitsOfNat] at hlen
  have htotal := h.total_bits
  rw [hbuf, List.length_append]
  omega

/-- A symbol with a context cuts off at least one part in 57. -/
theorem shrinks_decision {state : Fin 1024 → ℕ} {c : Fin 1024} (b : Bool)
    (hok : EngineOk ctxCount state I.range) (hc : c < ctxCount) :
    CodeInterval.Shrinks 56 57 I (cabacEngine.narrow state I (.decision c) b) := by
  obtain ⟨h6, h128, h57⟩ := rangeLpsAt_bounds (hok.two_le c hc) (hok.lt c hc) hok.range_ge
    hok.range_lt
  have hr' := hok.range_lt
  refine ⟨_, rfl, ?_⟩
  simp only [BinaryCoder.narrow]
  rw [← mul_assoc, ← mul_assoc]
  refine Nat.mul_le_mul_right _ ?_
  rcases (cabacEngine.split state (.decision c) I.range).width_cases b with hw | hw
  · rw [hw]
    simp only [cabacEngine]
    omega
  · rw [hw]
    simp only [cabacEngine]
    omega

/-- The sign that the slice goes on cuts off one part in 256. -/
theorem shrinks_terminate {state : Fin 1024 → ℕ} (hok : EngineOk ctxCount state I.range) :
    CodeInterval.Shrinks 255 256 I (cabacEngine.narrow state I .terminate false) := by
  have hr := hok.range_ge
  have hr' := hok.range_lt
  have hnarrow := BinaryCoder.narrow_of_pre_zero (C := cabacEngine) (s := state) (I := I)
    (r := .terminate) (b := false) (x := 0) (w := I.range - 2) rfl rfl rfl
  rw [hnarrow]
  refine ⟨_, rfl, ?_⟩
  simp only
  rw [← mul_assoc, ← mul_assoc]
  exact Nat.mul_le_mul_right _ (by omega)

/-- The coder inside a slice that starts after the bytes `bs`. -/
structure MidSlice (ctxCount : ℕ) (bs pre : List UInt8) (I : CodeInterval) (cb : Cabac) :
    Prop where
  coding : Coding pre I cb
  ok : EngineOk ctxCount cb.state I.range
  start : cb.pStart = bs.length
  before : bs.length ≤ pre.length

theorem midSlice_encodeInit (cb : Cabac) (table : Fin 1024 → ℤ × ℤ) (ctxCount iQp : ℕ)
    (bs : List UInt8) :
    MidSlice ctxCount bs bs cabacStart ((cb.contextInit table ctxCount iQp).encodeInit bs) where
  coding := coding_encodeInit _ bs
  ok := engineOk_contextInit cb table ctxCount iQp
  start := rfl
  before := le_rfl

theorem MidSlice.sizeBytes (h : MidSlice ctxCount bs pre I cb) :
    cb.sizeBytes + bs.length = cb.total := by
  obtain ⟨seg, w, -, hold⟩ := h.coding.holds
  have hlen := congrArg List.length hold.buf
  have hbefore := h.before
  rw [List.length_append] at hlen
  rw [Cabac.sizeBytes, h.start, Cabac.total]
  omega

theorem MidSlice.foldl_run (h : MidSlice ctxCount bs pre I cb)
    (hcalls : ∀ c ∈ calls, c.Allowed ctxCount) :
    MidSlice ctxCount bs pre (cabacEngine.encode cb.state I (binsOf calls)).2
      (calls.foldl CabacCall.run cb) := by
  obtain ⟨hcoding, hstate⟩ := coding_calls h.coding h.ok hcalls
  have hok := ((engine_invariant ctxCount).encode h.ok (binAllowed_of_mem_binsOf hcalls)).1
  rw [← hstate] at hok
  exact ⟨hcoding, hok, (calls_pStart calls cb).trans h.start, h.before⟩

theorem MidSlice.pcm (h : MidSlice ctxCount bs pre I cb) (iFrame : ℕ) (samples : List UInt8) :
    (∃ pre', MidSlice ctxCount bs pre' cabacStart (cb.encodePcm iFrame samples)) ∧
      cb.total + 2 ≤ (cb.encodePcm iFrame samples).total := by
  have hr : 2 ≤ I.range := le_trans (by omega) h.ok.range_ge
  obtain ⟨seg, pad, hbuf, -⟩ := coding_flush h.coding hr iFrame
  have htotal := h.coding.total_flush hr iFrame
  have hbefore := h.before
  refine ⟨⟨pre ++ seg ++ samples, coding_initCore (by simp only [hbuf]), ?_, ?_, ?_⟩, ?_⟩
  · have hstate : (cb.encodePcm iFrame samples).state = cb.state := encodeFlush_state _ _
    rw [hstate]
    exact ⟨h.ok.two_le, h.ok.lt, by decide, by decide⟩
  · exact (encodeFlush_pStart _ _).trans h.start
  · rw [List.length_append, List.length_append]
    omega
  · simp only [Cabac.encodePcm, Cabac.encodeInitCore, Cabac.total, List.length_append] at htotal ⊢
    omega

/-- Calls with a decision among them cut off a part in 57. -/
theorem MidSlice.shrinks (h : MidSlice ctxCount bs pre I cb)
    (hcalls : ∀ c ∈ calls, c.Allowed ctxCount) (hcodes : ∃ c b, .decision c b ∈ calls) :
    CodeInterval.Shrinks 56 57 I (cabacEngine.encode cb.state I (binsOf calls)).2 := by
  obtain ⟨c, b, hmem⟩ := hcodes
  obtain ⟨l, l', rfl⟩ := List.append_of_mem hmem
  have hl : ∀ d ∈ l, d.Allowed ctxCount := fun d hd => hcalls d (by simp [hd])
  have hl' : ∀ d ∈ l', d.Allowed ctxCount := fun d hd => hcalls d (by simp [hd])
  have hc : c < ctxCount := hcalls (.decision c b) (by simp)
  have hbins : binsOf (l ++ .decision c b :: l') = binsOf l ++ (.decision c, b) :: binsOf l' := by
    simp [binsOf, CabacCall.bins]
  have hinv := engine_invariant ctxCount
  obtain ⟨hok₁, hsub₁⟩ := hinv.encode h.ok (binAllowed_of_mem_binsOf hl)
  rw [hbins, BinaryCoder.encode_append]
  generalize cabacEngine.encode cb.state I (binsOf l) = x at *
  have hsub₂ := (hinv.encode (hinv.next x.1 x.2 (.decision c) b hok₁ hc)
    (binAllowed_of_mem_binsOf hl')).2
  have hshrinks := (hsub₁.shrinks.trans (shrinks_decision b hok₁ hc)).trans hsub₂.shrinks
  rw [one_mul, mul_one, one_mul, mul_one] at hshrinks
  exact hshrinks

theorem allowed_allCalls (m : MbWrite ctxCount) (first : Bool) :
    ∀ c ∈ m.allCalls first, c.Allowed ctxCount := by
  intro c hc
  unfold MbWrite.allCalls at hc
  split_ifs at hc
  · exact m.allowed c hc
  · rcases List.mem_cons.mp hc with rfl | hc
    · trivial
    · exact m.allowed c hc

/-- The calls of a macroblock that is not the first one. -/
theorem MidSlice.allCalls (h : MidSlice ctxCount bs pre I cb) (m : MbWrite ctxCount) :
    ∃ J, MidSlice ctxCount bs pre J ((m.allCalls false).foldl CabacCall.run cb) ∧
      CodeInterval.Shrinks (255 * 56) (256 * 57) I J := by
  obtain ⟨hcoding, hstate⟩ := coding_terminal h.coding h.ok
  have hok := (engine_invariant ctxCount).next cb.state I .terminate false h.ok rfl
  have hterm : MidSlice ctxCount bs pre (cabacEngine.narrow cb.state I .terminate false)
      cb.encodeTerminal :=
    ⟨hcoding, hstate ▸ hok, (run_pStart .terminal cb).trans h.start, h.before⟩
  exact ⟨_, hterm.foldl_run m.allowed,
    (shrinks_terminate h.ok).trans (hterm.shrinks m.allowed m.codes)⟩

theorem total_le_writeMb (h : MidSlice ctxCount bs pre I cb) (first : Bool)
    (m : MbWrite ctxCount) : cb.total ≤ (cb.writeMb iFrame first m).total := by
  have hcalls := total_le_calls (m.allCalls first) cb
  unfold Cabac.writeMb
  cases m.samples with
  | none => exact hcalls
  | some samples =>
    have hpcm := ((h.foldl_run (allowed_allCalls m first)).pcm iFrame samples).2
    simp only
    omega

/-- A macroblock either narrows the interval or writes its samples after a flush. -/
theorem MidSlice.writeMb (h : MidSlice ctxCount bs pre I cb) (iFrame : ℕ) (m : MbWrite ctxCount) :
    (∃ J, MidSlice ctxCount bs pre J (cb.writeMb iFrame false m) ∧
      CodeInterval.Shrinks (255 * 56) (256 * 57) I J) ∨
    ((∃ pre' J, MidSlice ctxCount bs pre' J (cb.writeMb iFrame false m)) ∧
      cb.total + 2 ≤ (cb.writeMb iFrame false m).total) := by
  obtain ⟨J, hmid, hshrinks⟩ := h.allCalls m
  have hcalls := total_le_calls (m.allCalls false) cb
  unfold Cabac.writeMb
  cases m.samples with
  | none => exact Or.inl ⟨J, hmid, hshrinks⟩
  | some samples =>
    obtain ⟨⟨pre', hpcm⟩, htotal⟩ := hmid.pcm iFrame samples
    refine Or.inr ⟨⟨pre', cabacStart, hpcm⟩, ?_⟩
    simp only
    omega

variable {mbs : ℕ → MbWrite ctxCount}

theorem midSlice_afterMb (h : MidSlice ctxCount bs bs cabacStart cb) (iFrame : ℕ)
    (mbs : ℕ → MbWrite ctxCount) (k : ℕ) :
    ∃ pre I, MidSlice ctxCount bs pre I (cb.afterMb iFrame mbs k) := by
  induction k with
  | zero =>
    have hcalls := h.foldl_run (allowed_allCalls (mbs 0) true)
    rw [Cabac.afterMb, Cabac.writeMb]
    cases (mbs 0).samples with
    | none => exact ⟨_, _, hcalls⟩
    | some samples =>
      obtain ⟨⟨pre', hpcm⟩, -⟩ := hcalls.pcm iFrame samples
      exact ⟨pre', cabacStart, hpcm⟩
  | succ k ih =>
    obtain ⟨pre, I, hmid⟩ := ih
    rcases hmid.writeMb iFrame (mbs (k + 1)) with ⟨J, hJ, -⟩ | ⟨hpcm, -⟩
    · exact ⟨pre, J, hJ⟩
    · exact hpcm

theorem total_le_afterMb (h : MidSlice ctxCount bs bs cabacStart cb) (iFrame : ℕ)
    (mbs : ℕ → MbWrite ctxCount) (k n : ℕ) :
    (cb.afterMb iFrame mbs k).total ≤ (cb.afterMb iFrame mbs (k + n)).total := by
  induction n with
  | zero => exact le_rfl
  | succ n ih =>
    obtain ⟨pre, I, hmid⟩ := midSlice_afterMb h iFrame mbs (k + n)
    exact le_trans ih (total_le_writeMb hmid false (mbs (k + n + 1)))

/-- Over a stretch of macroblocks the parts that are cut off multiply, unless bytes were flushed. -/
theorem stretch_afterMb (h : MidSlice ctxCount bs bs cabacStart cb) {k : ℕ}
    (hmid : MidSlice ctxCount bs pre I (cb.afterMb iFrame mbs k)) (n : ℕ) :
    (∃ J, MidSlice ctxCount bs pre J (cb.afterMb iFrame mbs (k + n)) ∧
      CodeInterval.Shrinks ((255 * 56) ^ n) ((256 * 57) ^ n) I J) ∨
    (cb.afterMb iFrame mbs k).total + 2 ≤ (cb.afterMb iFrame mbs (k + n)).total := by
  induction n with
  | zero => exact Or.inl ⟨I, hmid, (CodeInterval.Sub.refl I).shrinks⟩
  | succ n ih =>
    have hmono := total_le_afterMb h iFrame mbs (k + n) 1
    have hprev := total_le_afterMb h iFrame mbs k n
    rcases ih with ⟨J, hJ, hshrinks⟩ | htotal
    · rcases hJ.writeMb iFrame (mbs (k + n + 1)) with ⟨K, hK, hshrinks'⟩ | ⟨-, htotal⟩
      · refine Or.inl ⟨K, hK, ?_⟩
        rw [pow_succ, pow_succ]
        exact hshrinks.trans hshrinks'
      · exact Or.inr (le_trans (Nat.add_le_add_right hprev 2) htotal)
    · exact Or.inr (le_trans htotal hmono)

/-- In six rows of macroblocks at least one byte comes, even if every one is skipped at the lowest
cost. -/
theorem total_lt_afterMb (h : MidSlice ctxCount bs bs cabacStart cb) (iFrame : ℕ)
    (mbs : ℕ → MbWrite ctxCount) (k : ℕ) :
    (cb.afterMb iFrame mbs k).total < (cb.afterMb iFrame mbs (k + 324)).total := by
  obtain ⟨pre, I, hmid⟩ := midSlice_afterMb h iFrame mbs k
  rcases stretch_afterMb h hmid 324 with ⟨J, hJ, hshrinks⟩ | htotal
  · have hbits : I.bits + 8 < J.bits := by
      refine hshrinks.bits_lt (r := 256) hmid.ok.range_lt hJ.ok.range_ge (by positivity) ?_
      decide +kernel
    have hI := hmid.coding.total_bits
    have hJ' := hJ.coding.total_bits
    omega
  · omega

/-- The sizes that `x264_slice_write` cuts its chunks by are those of the coder. -/
def Cabac.frame {ctxCount : ℕ} {bs : List UInt8} {cb : Cabac}
    (h : MidSlice ctxCount bs bs cabacStart cb) (iFrame : ℕ) (mbs : ℕ → MbWrite ctxCount) :
    CabacFrame where
  size k := (cb.afterMb iFrame mbs k).sizeBytes
  flushed := ((cb.afterMb iFrame mbs iLastMb).encodeFlush iFrame).buf.length - bs.length
  mono := by
    intro k _
    obtain ⟨pre, I, hmid⟩ := midSlice_afterMb h iFrame mbs k
    obtain ⟨pre', J, hmid'⟩ := midSlice_afterMb h iFrame mbs (k + 1)
    have hsize := hmid.sizeBytes
    have hsize' := hmid'.sizeBytes
    have hle := total_le_afterMb h iFrame mbs k 1
    omega
  grows := by
    intro k _
    obtain ⟨pre, I, hmid⟩ := midSlice_afterMb h iFrame mbs k
    obtain ⟨pre', J, hmid'⟩ := midSlice_afterMb h iFrame mbs (k + 324)
    have hsize := hmid.sizeBytes
    have hsize' := hmid'.sizeBytes
    have hlt := total_lt_afterMb h iFrame mbs k
    omega
  flush := by
    obtain ⟨pre, I, hmid⟩ := midSlice_afterMb h iFrame mbs iLastMb
    have hsize := hmid.sizeBytes
    have hflush := hmid.coding.total_flush (le_trans (by omega) hmid.ok.range_ge) iFrame
    omega

/-- The macroblocks up to `k`, in the groups that samples end. -/
def segmentsOf (mbs : ℕ → MbWrite ctxCount) : ℕ → List PcmSegment × List CabacCall
  | 0 => addMb ([], []) true (mbs 0)
  | k + 1 => addMb (segmentsOf mbs k) false (mbs (k + 1))
where
  addMb (x : List PcmSegment × List CabacCall) (first : Bool) (m : MbWrite ctxCount) :
      List PcmSegment × List CabacCall :=
    match m.samples with
    | none => (x.1, x.2 ++ m.allCalls first)
    | some samples => (x.1 ++ [⟨x.2 ++ m.allCalls first, samples⟩], [])

def Cabac.encodeGroups (cb : Cabac) (iFrame : ℕ) (x : List PcmSegment × List CabacCall) : Cabac :=
  x.2.foldl CabacCall.run (x.1.foldl (Cabac.encodeSegment iFrame) cb)

theorem encodeGroups_addMb (x : List PcmSegment × List CabacCall) (first : Bool)
    (m : MbWrite ctxCount) :
    cb.encodeGroups iFrame (segmentsOf.addMb x first m) =
      (cb.encodeGroups iFrame x).writeMb iFrame first m := by
  unfold segmentsOf.addMb Cabac.writeMb
  cases m.samples with
  | none => simp only [Cabac.encodeGroups, List.foldl_append]
  | some samples =>
    simp only [Cabac.encodeGroups, List.foldl_append, List.foldl_cons, List.foldl_nil,
      Cabac.encodeSegment]

theorem encodeGroups_segmentsOf (cb : Cabac) (iFrame : ℕ) (mbs : ℕ → MbWrite ctxCount) (k : ℕ) :
    cb.encodeGroups iFrame (segmentsOf mbs k) = cb.afterMb iFrame mbs k := by
  induction k with
  | zero =>
    rw [segmentsOf, encodeGroups_addMb, Cabac.afterMb]
    rfl
  | succ k ih => rw [segmentsOf, encodeGroups_addMb, ih, Cabac.afterMb]

/-- Every call of the groups is a call of a macroblock. -/
structure GroupsAllowed (ctxCount : ℕ) (x : List PcmSegment × List CabacCall) : Prop where
  segs : ∀ s ∈ x.1, ∀ c ∈ s.calls, c.Allowed ctxCount
  last : ∀ c ∈ x.2, c.Allowed ctxCount

theorem groupsAllowed_addMb {x : List PcmSegment × List CabacCall}
    (h : GroupsAllowed ctxCount x) (first : Bool) (m : MbWrite ctxCount) :
    GroupsAllowed ctxCount (segmentsOf.addMb x first m) := by
  have hcalls : ∀ c ∈ x.2 ++ m.allCalls first, c.Allowed ctxCount := by
    intro c hc
    rcases List.mem_append.mp hc with hc | hc
    · exact h.last c hc
    · exact allowed_allCalls m first c hc
  unfold segmentsOf.addMb
  cases m.samples with
  | none => exact ⟨h.segs, hcalls⟩
  | some samples =>
    refine ⟨?_, by simp⟩
    intro s hs
    rcases List.mem_append.mp hs with hs | hs
    · exact h.segs s hs
    · rw [List.mem_singleton.mp hs]
      exact hcalls

theorem groupsAllowed_segmentsOf (mbs : ℕ → MbWrite ctxCount) (k : ℕ) :
    GroupsAllowed ctxCount (segmentsOf mbs k) := by
  induction k with
  | zero => exact groupsAllowed_addMb ⟨by simp, by simp⟩ true (mbs 0)
  | succ k ih => exact groupsAllowed_addMb ih false (mbs (k + 1))

/-- What an encoder's chunk points to. -/
def chunkBytes (buf : List UInt8) (r : ℤ × ℤ) : List UInt8 :=
  (buf.drop r.1.toNat).take r.2.toNat

/-- The flush ends with the byte that the stop bit is in. -/
theorem getLast?_encodeFlush (h : Coding pre I cb) (hr : 2 ≤ I.range) (iFrame : ℕ) :
    (cb.encodeFlush iFrame).buf.getLast? ≠ some 0 := by
  obtain ⟨seg, pad, hbuf, hpad, hbits⟩ := coding_flush h hr iFrame
  obtain ⟨-, hhigh, hodd⟩ := stopNumber_bounds hr
  have htop := h.top
  have hne : seg ≠ [] := by
    rintro rfl
    have hlen := congrArg List.length hbits
    rw [bitsOfBytes_nil, List.length_nil, List.length_append, length_bitsOfNat] at hlen
    have hzero : I.bits = 0 := by omega
    rw [hzero, pow_zero] at htop
    omega
  obtain ⟨seg', c, rfl⟩ := (List.eq_nil_or_concat seg).resolve_left hne
  rw [List.concat_eq_append] at hbuf hbits
  rw [hbuf, ← List.append_assoc, List.getLast?_append_of_ne_nil _ (by simp)]
  intro hzero
  obtain rfl : c = 0 := Option.some.inj hzero
  have hnum : natOfBytes (seg' ++ [0]) = _ := congrArg natOfBits hbits
  have hrest : Cabac.flushBit iFrame % 2 ^ pad < 2 ^ pad := Nat.mod_lt _ (Nat.two_pow_pos pad)
  have hpow : 2 ^ 8 = 2 ^ (7 - pad) * 2 * 2 ^ pad := by
    rw [← pow_succ, ← pow_add]
    congr 1
    omega
  rw [natOfBytes_concat, natOfBits_append, natOfBits_bitsOfNat, natOfBits_bitsOfNat,
    length_bitsOfNat, Nat.mod_eq_of_lt (by omega), hpow, ← mul_assoc, ← mul_assoc] at hnum
  -- Above the bit of the frame the number is odd, and eight zeros make it even.
  have hdiv := congrArg (· / 2 ^ pad) hnum
  simp only [UInt8.toNat_zero, add_zero, Nat.mul_div_cancel _ (Nat.two_pow_pos pad)] at hdiv
  rw [mul_comm (stopNumber I), Nat.mul_add_div (Nat.two_pow_pos pad),
    Nat.div_eq_of_lt hrest] at hdiv
  omega

/-- The five chunks of a frame are kept, and they are its data, cut in pieces. -/
theorem frame_chunks_data (cb : Cabac) (table : Fin 1024 → ℤ × ℤ) (ctxCount iQp iFrame : ℕ)
    (bs : List UInt8) (mbs : ℕ → MbWrite ctxCount) (idr : Bool) (ref : NalPriority)
    (e : H264Encoder) (before after : List X264Nal)
    (hsei : ∀ u ∈ before ++ after, u.iType = .sei) :
    let start := (cb.contextInit table ctxCount iQp).encodeInit bs
    let flushed := ((start.afterMb iFrame mbs iLastMb).encodeFlush iFrame).buf
    let groups := segmentsOf mbs iLastMb
    ∃ units e' data, sliceWrite
        (Cabac.frame (midSlice_encodeInit cb table ctxCount iQp bs) iFrame mbs)
        idr ref bs.length = some units ∧
      units.map X264Nal.chunkIdx = [0, 1, 2, 3, 4] ∧
      e.encode (before ++ units ++ after) = .ok e' ∧
      List.ofFn e'.chunks = units.map X264Nal.range ∧
      Tiles (bs.length : ℤ) (List.ofFn e'.chunks) flushed.length ∧
      flushed = bs ++ data ∧ (List.ofFn e'.chunks).flatMap (chunkBytes flushed) = data ∧
      data.getLast? ≠ some 0 ∧
      ∀ post, decodeSlice ((binsOf groups.2).map Prod.fst) start.state (data ++ post)
          (groups.1.map PcmSegment.request) =
        some (groups.1.map PcmSegment.content, (binsOf groups.2).map Prod.snd, post) := by
  intro start flushed groups
  have hmid := midSlice_encodeInit cb table ctxCount iQp bs
  obtain ⟨units, hunits, hidx, htiles, hident⟩ := sliceWrite_spec
    (Cabac.frame (midSlice_encodeInit cb table ctxCount iQp bs) iFrame mbs) idr ref bs.length
  have htype : ∀ u ∈ units, u.iType ≠ .sei := by
    intro u hu
    rw [(hident u hu).1, iNalType]
    cases idr with
    | true => decide
    | false => decide
  obtain ⟨e', he', hchunks⟩ := e.encode_eq hsei htype hidx
  obtain ⟨hsegs, hlast⟩ := groupsAllowed_segmentsOf mbs iLastMb
  obtain ⟨data, hdata, hdecode⟩ := decodeSlice_encode hmid.coding hmid.ok hsegs hlast iFrame
  have hbuf : flushed = bs ++ data := by
    have hgroups := encodeGroups_segmentsOf start iFrame mbs iLastMb
    change ((start.afterMb iFrame mbs iLastMb).encodeFlush iFrame).buf = bs ++ data
    rw [← hgroups]
    exact hdata
  have hlen : (Cabac.frame (midSlice_encodeInit cb table ctxCount iQp bs) iFrame mbs).flushed =
      data.length := by
    change flushed.length - bs.length = _
    rw [hbuf]
    simp
  rw [hlen] at htiles
  have hpieces : (List.ofFn e'.chunks).flatMap (chunkBytes flushed) = data := by
    have hflat := htiles.flatMap_extract (by omega) (bs ++ data)
    rw [add_sub_cancel_left, Int.toNat_natCast, Int.toNat_natCast, List.drop_left,
      List.take_length] at hflat
    rw [hchunks, hbuf]
    exact hflat
  have hall : Tiles (bs.length : ℤ) (List.ofFn e'.chunks) flushed.length := by
    rw [hchunks, hbuf, List.length_append]
    push_cast
    exact htiles
  refine ⟨units, e', data, hunits, hidx, he', hchunks, hall, hbuf, hpieces, ?_, hdecode⟩
  obtain ⟨pre, I, hend⟩ := midSlice_afterMb hmid iFrame mbs iLastMb
  have hzero : flushed.getLast? ≠ some 0 :=
    getLast?_encodeFlush hend.coding (le_trans (by omega) hend.ok.range_ge) iFrame
  rw [hbuf, List.getLast?_append] at hzero
  intro hdata
  rw [hdata] at hzero
  exact hzero rfl

/-- Whatever the macroblocks of the frame are, five chunks are cut and kept, they are exactly the
flushed data of the coder, and put together they give a decoder back every symbol and every
sample. -/
theorem frame_chunks_decode (cb : Cabac) (table : Fin 1024 → ℤ × ℤ) (ctxCount iQp iFrame : ℕ)
    (bs : List UInt8) (mbs : ℕ → MbWrite ctxCount) (idr : Bool) (ref : NalPriority)
    (e : H264Encoder) (before after : List X264Nal)
    (hsei : ∀ u ∈ before ++ after, u.iType = .sei) :
    let start := (cb.contextInit table ctxCount iQp).encodeInit bs
    let flushed := ((start.afterMb iFrame mbs iLastMb).encodeFlush iFrame).buf
    let groups := segmentsOf mbs iLastMb
    ∃ units e', sliceWrite (Cabac.frame (midSlice_encodeInit cb table ctxCount iQp bs) iFrame mbs)
        idr ref bs.length = some units ∧
      units.map X264Nal.chunkIdx = [0, 1, 2, 3, 4] ∧
      e.encode (before ++ units ++ after) = .ok e' ∧
      List.ofFn e'.chunks = units.map X264Nal.range ∧
      Tiles (bs.length : ℤ) (List.ofFn e'.chunks) flushed.length ∧
      flushed = bs ++ (List.ofFn e'.chunks).flatMap (chunkBytes flushed) ∧
      decodeSlice ((binsOf groups.2).map Prod.fst) start.state
          ((List.ofFn e'.chunks).flatMap (chunkBytes flushed)) (groups.1.map PcmSegment.request) =
        some (groups.1.map PcmSegment.content, (binsOf groups.2).map Prod.snd, []) := by
  intro start flushed groups
  obtain ⟨units, e', data, hunits, hidx, he', hchunks, htiles, hbuf, hpieces, -, hdecode⟩ :=
    frame_chunks_data cb table ctxCount iQp iFrame bs mbs idr ref e before after hsei
  refine ⟨units, e', hunits, hidx, he', hchunks, htiles, ?_, ?_⟩
  · exact hbuf.trans (congrArg (bs ++ ·) hpieces.symm)
  · have hpost := hdecode []
    rw [List.append_nil] at hpost
    exact (congrArg (fun l => decodeSlice _ _ l _) hpieces).trans hpost

/-- A macroblock of a P slice that is skipped. -/
def skippedMb : MbWrite 460 where
  calls := [.decision 11 true]
  samples := none
  allowed := by decide
  codes := ⟨11, true, by simp⟩

theorem frame_chunks_decode_skipped :
    let start := (Cabac.fresh.contextInit (fun _ => (0, 64)) 460 32).encodeInit [0, 0, 0, 1, 0x41]
    let flushed := ((start.afterMb 7 (fun _ => skippedMb) iLastMb).encodeFlush 7).buf
    let groups := segmentsOf (fun _ => skippedMb) iLastMb
    ∃ units e', sliceWrite (Cabac.frame
        (midSlice_encodeInit Cabac.fresh (fun _ => (0, 64)) 460 32 [0, 0, 0, 1, 0x41]) 7
        (fun _ => skippedMb)) false .high (5 : ℕ) = some units ∧
      units.map X264Nal.chunkIdx = [0, 1, 2, 3, 4] ∧
      H264Encoder.encode ⟨fun _ => (0, 7), 5, true⟩
        ([⟨.disposable, .sei, 0, 40, 0⟩] ++ units ++ []) = .ok e' ∧
      List.ofFn e'.chunks = units.map X264Nal.range ∧
      Tiles (5 : ℤ) (List.ofFn e'.chunks) flushed.length ∧
      flushed = [0, 0, 0, 1, 0x41] ++ (List.ofFn e'.chunks).flatMap (chunkBytes flushed) ∧
      decodeSlice ((binsOf groups.2).map Prod.fst) start.state
          ((List.ofFn e'.chunks).flatMap (chunkBytes flushed)) (groups.1.map PcmSegment.request) =
        some (groups.1.map PcmSegment.content, (binsOf groups.2).map Prod.snd, []) :=
  frame_chunks_decode Cabac.fresh (fun _ => (0, 64)) 460 32 7 [0, 0, 0, 1, 0x41]
    (fun _ => skippedMb) false .high ⟨fun _ => (0, 7), 5, true⟩
    [⟨.disposable, .sei, 0, 40, 0⟩] [] (by decide)

end Pc2Drc
