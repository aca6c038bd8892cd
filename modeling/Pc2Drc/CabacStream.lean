import Pc2Drc.CabacCoder

/-! The data of a slice: the calls of the coder, its flush, and the samples of the macroblocks that
are not coded; a decoder gets every symbol and every sample back. -/
namespace Pc2Drc

open Lib

/-- A call of the coder by the macroblock layer. -/
inductive CabacCall
  | decision (iCtx : Fin 1024) (b : Bool)
  | bypass (b : Bool)
  | ueBypass (expBits val : ℕ)
  | terminal
  deriving DecidableEq, Repr

namespace CabacCall

def run (cb : Cabac) : CabacCall → Cabac
  | decision c b => cb.encodeDecision c b
  | bypass b => cb.encodeBypass b
  | ueBypass e v => cb.encodeUeBypass e v
  | terminal => cb.encodeTerminal

/-- The symbols that a call stands for. -/
def bins : CabacCall → List (BinRequest × Bool)
  | decision c b => [(.decision c, b)]
  | bypass b => [(.bypass, b)]
  | ueBypass e v => (ueBins e v).map fun b => (.bypass, b)
  | terminal => [(.terminate, false)]

/-- The context is one of those that are set, and the code of a value has less than 32 bits. -/
def Allowed (ctxCount : ℕ) : CabacCall → Prop
  | decision c _ => c < ctxCount
  | bypass _ => True
  | ueBypass e v => 2 * (v + 2 ^ e).log2 + 1 - e < 32
  | terminal => True

instance (ctxCount : ℕ) (c : CabacCall) : Decidable (c.Allowed ctxCount) :=
  match c with
  | decision c _ => inferInstanceAs (Decidable (c.val < ctxCount))
  | bypass _ => inferInstanceAs (Decidable True)
  | ueBypass e v => inferInstanceAs (Decidable (2 * (v + 2 ^ e).log2 + 1 - e < 32))
  | terminal => inferInstanceAs (Decidable True)

end CabacCall

def binsOf (calls : List CabacCall) : List (BinRequest × Bool) :=
  calls.flatMap CabacCall.bins

variable {pre : List UInt8} {I : CodeInterval} {cb : Cabac} {ctxCount : ℕ} {c : CabacCall}
  {calls : List CabacCall}

theorem binAllowed_of_mem (h : c.Allowed ctxCount) :
    ∀ x ∈ c.bins, BinAllowed ctxCount x.1 x.2 := by
  intro x hx
  cases c with
  | decision i b =>
    obtain rfl := List.mem_singleton.mp hx
    exact h
  | bypass b =>
    obtain rfl := List.mem_singleton.mp hx
    trivial
  | ueBypass e v =>
    obtain ⟨b, -, rfl⟩ := List.mem_map.mp hx
    trivial
  | terminal =>
    obtain rfl := List.mem_singleton.mp hx
    rfl

theorem binAllowed_of_mem_binsOf (h : ∀ c ∈ calls, c.Allowed ctxCount) :
    ∀ x ∈ binsOf calls, BinAllowed ctxCount x.1 x.2 := by
  intro x hx
  obtain ⟨c, hc, hx⟩ := List.mem_flatMap.mp hx
  exact binAllowed_of_mem (h c hc) x hx

/-- One call. -/
theorem coding_call (h : Coding pre I cb) (hok : EngineOk ctxCount cb.state I.range)
    (hc : c.Allowed ctxCount) :
    Coding pre (cabacEngine.encode cb.state I c.bins).2 (c.run cb) ∧
      (c.run cb).state = (cabacEngine.encode cb.state I c.bins).1 := by
  cases c with
  | decision i b => exact coding_decision h hok hc b
  | bypass b => exact coding_bypass h hok b
  | ueBypass e v =>
    obtain ⟨hcoding, hstate⟩ := coding_ueBypass h hok hc
    refine ⟨hcoding, hstate.trans ?_⟩
    rw [CabacCall.bins, encode_bypass hok]
  | terminal => exact coding_terminal h hok

/-- Any calls. -/
theorem coding_calls (h : Coding pre I cb) (hok : EngineOk ctxCount cb.state I.range)
    (hcalls : ∀ c ∈ calls, c.Allowed ctxCount) :
    Coding pre (cabacEngine.encode cb.state I (binsOf calls)).2 (calls.foldl CabacCall.run cb) ∧
      (calls.foldl CabacCall.run cb).state =
        (cabacEngine.encode cb.state I (binsOf calls)).1 := by
  induction calls generalizing I cb with
  | nil => exact ⟨h, rfl⟩
  | cons c calls ih =>
    have hc : c.Allowed ctxCount := hcalls c List.mem_cons_self
    obtain ⟨hcoding, hstate⟩ := coding_call h hok hc
    have hok' := ((engine_invariant ctxCount).encode hok (binAllowed_of_mem hc)).1
    rw [← hstate] at hok'
    obtain ⟨hcoding', hstate'⟩ := ih hcoding hok' (fun d hd => hcalls d (List.mem_cons_of_mem _ hd))
    have hbins : binsOf (c :: calls) = c.bins ++ binsOf calls := List.flatMap_cons
    rw [hbins, BinaryCoder.encode_append, ← hstate]
    exact ⟨hcoding', hstate'⟩

theorem or_two_pow_self {i : ℕ} (a : ℕ) : 2 ^ (i + 1) * a ||| 2 ^ i = 2 ^ (i + 1) * a + 2 ^ i := by
  refine (Nat.two_pow_add_eq_or_of_lt ?_ a).symm
  exact Nat.pow_lt_pow_right (by omega) (by omega)

theorem or_one_eq (x : ℕ) : x ||| 1 = 2 * (x / 2) + 1 := by
  have hone := or_two_pow_self (i := 0) (x / 2)
  simp only [zero_add, pow_one, pow_zero] at hone
  rcases Nat.mod_two_eq_zero_or_one x with h | h
  · rw [show 2 * (x / 2) = x by omega] at hone ⊢
    exact hone
  · have heq : 2 * (x / 2) + 1 = x := by omega
    rw [heq] at hone
    rw [heq, ← hone, Nat.or_assoc, Nat.or_self]

/-- The number that the flush writes: the last but one of the interval, or the last one, whichever
is odd. -/
def stopNumber (I : CodeInterval) : ℕ :=
  (I.low + (I.range - 2)) ||| 1

theorem stopNumber_bounds (hr : 2 ≤ I.range) :
    I.low + (I.range - 2) ≤ stopNumber I ∧ stopNumber I < I.low + I.range ∧
      stopNumber I % 2 = 1 := by
  rw [stopNumber, or_one_eq]
  omega

theorem flushBit_cases (iFrame : ℕ) : Cabac.flushBit iFrame = 0 ∨ Cabac.flushBit iFrame = 1 := by
  have h : Cabac.flushBit iFrame < 2 ^ 1 := Nat.and_lt_two_pow _ (by omega)
  omega

/-- The bit of the frame goes below the stop bit, or changes nothing. -/
theorem or_flushBit {a t : ℕ} (iFrame : ℕ) (ht : 1 ≤ t) (hodd : a % 2 = 1) :
    ∃ δ, a * 2 ^ (9 + t) ||| (Cabac.flushBit iFrame <<< 10) = a * 2 ^ (9 + t) + δ ∧
      δ < 2 ^ (9 + t) ∧ δ ≤ 2 ^ 10 ∧ (1 < t → δ = Cabac.flushBit iFrame * 2 ^ 10) := by
  rcases flushBit_cases iFrame with hbit | hbit
  · exact ⟨0, by simp [hbit], Nat.two_pow_pos _, by omega, by omega⟩
  · rw [hbit, Nat.one_shiftLeft]
    by_cases ht1 : t = 1
    · subst ht1
      refine ⟨0, ?_, Nat.two_pow_pos _, by omega, by omega⟩
      have heq : a * 2 ^ (9 + 1) = 2 ^ (10 + 1) * (a / 2) + 2 ^ 10 := by omega
      rw [heq, ← or_two_pow_self, Nat.or_assoc, Nat.or_self, add_zero]
    · refine ⟨2 ^ 10, ?_, Nat.pow_lt_pow_right (by omega) (by omega), le_rfl, by omega⟩
      have heq : a * 2 ^ (9 + t) = 2 ^ (10 + 1) * (a * 2 ^ (t - 2)) := by
        rw [show 9 + t = 10 + 1 + (t - 2) by omega, pow_add]
        ring
      rw [heq, or_two_pow_self]

/-- The first half of the flush: all bits of the stop number have come to the register, and less
than a byte of them is left there. -/
theorem flush_register (h : Coding pre I cb) (hr : 2 ≤ I.range) {cb' : Cabac}
    (hcb : cb' = Cabac.putbyte (Cabac.putbyte { cb with
      iLow := ((cb.iLow + (cb.iRange - 2)) ||| 1) <<< 9
      iQueue := cb.iQueue + 9 })) :
    ∃ seg v, 10 ≤ v ∧ v ≤ 17 ∧ Holding pre seg v ⟨stopNumber I * 2 ^ 9, 1, I.bits + 9⟩ cb' ∧
      cb'.iLow < 2 ^ v := by
  obtain ⟨seg, w, hw, hold⟩ := h.holds
  obtain ⟨hlow, hhigh, -⟩ := stopNumber_bounds hr
  have htop := h.top
  have hwide := hold.wide
  -- The stop number ends in the register as the number of the whole interval does.
  have hstop : I.low + ((cb.iLow + (I.range - 2) ||| 1) - cb.iLow) = stopNumber I := by
    have heven : 2 ^ w = 2 * 2 ^ (w - 1) := by rw [← pow_succ', Nat.sub_add_cancel (by omega)]
    rw [stopNumber, or_one_eq, or_one_eq, hold.low, heven, mul_left_comm]
    omega
  have hle : cb.iLow ≤ cb.iLow + (I.range - 2) ||| 1 := by
    rw [or_one_eq]
    omega
  generalize hx : (cb.iLow + (I.range - 2) ||| 1) - cb.iLow = x at *
  have hshift := hold.shift (s := 9) (x := x * 2 ^ 9) (r := 1)
    (c := { cb with
      iLow := ((cb.iLow + (cb.iRange - 2)) ||| 1) <<< 9
      iQueue := cb.iQueue + 9 })
    (by omega) rfl rfl (by simp only [h.range, Nat.shiftLeft_eq]; omega) rfl
  rw [← add_mul, hstop] at hshift
  have htop' : stopNumber I * 2 ^ 9 + 1 ≤ 2 ^ (I.bits + 9) := by
    rw [pow_add]
    omega
  obtain ⟨⟨seg₁, hold₁⟩, hlt₁⟩ := Holding.putbyte (v := w + 1) hshift (by omega)
    (by simp) (by simp) htop'
  rw [hcb]
  by_cases hfull : w + 1 < 18
  · rw [hold₁.putbyte_eq_self hfull]
    exact ⟨seg₁, w + 1, by omega, by omega, hold₁, hlt₁⟩
  · obtain rfl : w = 17 := by omega
    obtain ⟨⟨seg₂, hold₂⟩, hlt₂⟩ := Holding.putbyte (v := 10) hold₁ le_rfl (by simp) (by simp) htop'
    exact ⟨seg₂, 10, le_rfl, by omega, hold₂, hlt₂⟩

/-- What the flush writes: the stop number, as wide as the interval is deep, and the bit of the
frame at the end of the byte, with zeros before it. -/
theorem coding_flush (h : Coding pre I cb) (hr : 2 ≤ I.range) (iFrame : ℕ) :
    ∃ seg pad, (cb.encodeFlush iFrame).buf = pre ++ seg ∧ pad < 8 ∧
      bitsOfBytes seg =
        bitsOfNat I.bits (stopNumber I) ++ bitsOfNat pad (Cabac.flushBit iFrame) := by
  obtain ⟨hlow, hhigh, hodd⟩ := stopNumber_bounds hr
  have htop := h.top
  obtain ⟨seg, v, hv, hv', hold, hlt⟩ := flush_register h hr rfl
  rw [Cabac.encodeFlush]
  simp only
  generalize Cabac.putbyte (Cabac.putbyte { cb with
      iLow := ((cb.iLow + (cb.iRange - 2)) ||| 1) <<< 9
      iQueue := cb.iQueue + 9 }) = cb' at *
  obtain ⟨t, rfl⟩ : ∃ t, v = 18 - t := ⟨18 - v, by omega⟩
  have hqueue : (-cb'.iQueue).toNat = t := by
    rw [hold.queue]
    omega
  -- What is left in the register is the end of the stop number, so it is odd.
  obtain ⟨a, ha, haodd⟩ : ∃ a, cb'.iLow = a * 2 ^ 9 ∧ a % 2 = 1 := by
    have hnum := hold.low
    have hpow : 2 ^ (18 - t) = 2 ^ (8 - t) * 2 * 2 ^ 9 := by
      rw [← pow_succ, ← pow_add, show 8 - t + 1 + 9 = 18 - t by omega]
    rw [hpow, ← mul_assoc, ← mul_assoc] at hnum
    generalize natOfBytes _ * 2 ^ (8 - t) = n at hnum
    simp only at hnum
    exact ⟨stopNumber I - n * 2, by omega, by omega⟩
  obtain ⟨δ, hor, hδ, hδ', hbit⟩ := or_flushBit iFrame (a := a) (t := t) (by omega) haodd
  have hshift : cb'.iLow <<< t = a * 2 ^ (9 + t) := by
    rw [Nat.shiftLeft_eq, ha, pow_add, mul_assoc]
  have hlt' : a * 2 ^ (9 + t) < 2 ^ 18 := by
    rw [← hshift, Nat.shiftLeft_eq, show 18 = 18 - t + t by omega, pow_add]
    exact Nat.mul_lt_mul_of_pos_right hlt (Nat.two_pow_pos t)
  rw [hqueue, hshift, hor]
  have hold' : Holding pre seg (10 + 8) ⟨stopNumber I * 2 ^ (9 + t) + δ, 1, I.bits + (9 + t)⟩
      { cb' with iLow := a * 2 ^ (9 + t) + δ, iQueue := 0 } := by
    refine ⟨hold.buf, rfl, ?_, ?_, hold.last, ?_, by omega⟩
    · have hbits := hold.bits
      simp only at hbits ⊢
      omega
    · have hnum := congrArg (· * 2 ^ t) hold.low
      simp only [add_mul, mul_assoc, ← pow_add, show 18 - t + t = 10 + 8 by omega, ha] at hnum
      simp only
      omega
    · simp only
      omega
  have htop' : stopNumber I * 2 ^ (9 + t) + δ + 1 ≤ 2 ^ (I.bits + (9 + t)) := by
    have hmul : (stopNumber I + 1) * 2 ^ (9 + t) ≤ 2 ^ I.bits * 2 ^ (9 + t) :=
      Nat.mul_le_mul_right _ (by omega)
    rw [add_mul, one_mul, ← pow_add] at hmul
    omega
  obtain ⟨⟨seg', hold''⟩, hlow'⟩ := hold'.putbyte le_rfl (by simp) (by simp) htop'
  generalize Cabac.putbyte { cb' with iLow := a * 2 ^ (9 + t) + δ, iQueue := 0 } = cb'' at *
  have hbits := hold''.bits
  have hnum := hold''.low
  rw [show 9 + t = t - 1 + 10 by omega, pow_add, ← mul_assoc] at hnum
  simp only at hbits hnum
  have hfin : natOfBytes (seg' ++ List.replicate cb''.iBytesOutstanding 0xff) =
      stopNumber I * 2 ^ (t - 1) + δ / 2 ^ 10 := by
    generalize stopNumber I * 2 ^ (t - 1) = n at *
    omega
  have hrest : δ / 2 ^ 10 < 2 ^ (t - 1) := by
    rw [Nat.div_lt_iff_lt_mul (by omega), ← pow_add, show t - 1 + 10 = 9 + t by omega]
    exact hδ
  have htail : bitsOfNat (t - 1) (Cabac.flushBit iFrame) = bitsOfNat (t - 1) (δ / 2 ^ 10) := by
    by_cases ht : 1 < t
    · rw [hbit ht, Nat.mul_div_cancel _ (Nat.two_pow_pos 10)]
    · rw [show t - 1 = 0 by omega]
      rfl
  refine ⟨seg' ++ List.replicate cb''.iBytesOutstanding 0xff, t - 1, ?_, by omega, ?_⟩
  · rw [hold''.buf, List.append_assoc]
  · rw [htail]
    apply eq_of_natOfBits
    · simp only [length_bitsOfBytes, List.length_append, List.length_replicate, length_bitsOfNat]
      omega
    · rw [natOfBits_append, natOfBits_bitsOfNat, natOfBits_bitsOfNat, Nat.mod_eq_of_lt (by omega),
        Nat.mod_eq_of_lt hrest, length_bitsOfNat]
      exact hfin

/-- The decoder at the start of the data. -/
def decodeInit (code : List Bool) : Option DecoderState :=
  (readBits 9 code).map fun u => ⟨u.1, 0x1FE, u.2⟩

/-- The last two numbers of the range are the end of the data. -/
def decodeEnd (d : DecoderState) : Bool :=
  d.range - 2 ≤ d.offset

/-- Decodes symbols up to an end of the data. What follows starts with the next byte. -/
def decodeSegment (state : Fin 1024 → ℕ) (bytes : List UInt8) (rs : List BinRequest) :
    Option (List Bool × (Fin 1024 → ℕ) × List UInt8) :=
  (decodeInit (bitsOfBytes bytes)).bind fun d =>
    (cabacEngine.decode state d rs).bind fun x =>
      if decodeEnd x.2.2 then
        some (x.1, x.2.1, bytes.drop ((8 * bytes.length - x.2.2.rest.length + 7) / 8))
      else none

@[simp] theorem encodeFlush_state (cb : Cabac) (iFrame : ℕ) :
    (cb.encodeFlush iFrame).state = cb.state := by
  simp [Cabac.encodeFlush]

/-- The decoder reads back what was coded between a start and a flush, and nothing that follows. -/
theorem decodeSegment_encode (h : Coding pre cabacStart cb)
    (hok : EngineOk ctxCount cb.state cabacStart.range)
    (hcalls : ∀ c ∈ calls, c.Allowed ctxCount) (iFrame : ℕ) :
    ∃ seg, ((calls.foldl CabacCall.run cb).encodeFlush iFrame).buf = pre ++ seg ∧
      ∀ post, decodeSegment cb.state (seg ++ post) ((binsOf calls).map Prod.fst) =
        some ((binsOf calls).map Prod.snd, (calls.foldl CabacCall.run cb).state, post) := by
  have hbins := binAllowed_of_mem_binsOf hcalls
  obtain ⟨hcoding, hstate⟩ := coding_calls h hok hcalls
  have hok' := ((engine_invariant ctxCount).encode hok hbins).1
  obtain ⟨k, hdepth, -, -⟩ := ((engine_invariant ctxCount).encode hok hbins).2
  generalize hJ : cabacEngine.encode cb.state cabacStart (binsOf calls) = J at *
  have hr : 2 ≤ J.2.range := le_trans (by omega) hok'.range_ge
  obtain ⟨hlow, hhigh, -⟩ := stopNumber_bounds hr
  have htop := hcoding.top
  obtain ⟨seg, pad, hbuf, hpad, hbits⟩ := coding_flush hcoding hr iFrame
  refine ⟨seg, hbuf, fun post => ?_⟩
  have hlen := congrArg List.length hbits
  rw [length_bitsOfBytes, List.length_append, length_bitsOfNat, length_bitsOfNat] at hlen
  have hcode : (bitsOfBytes (seg ++ post)).take J.2.bits = bitsOfNat J.2.bits (stopNumber J.2) := by
    rw [bitsOfBytes_append, hbits, List.append_assoc, List.take_left' (length_bitsOfNat _ _)]
  have hnat : natOfBits ((bitsOfBytes (seg ++ post)).take J.2.bits) = stopNumber J.2 := by
    rw [hcode, natOfBits_bitsOfNat, Nat.mod_eq_of_lt (by omega)]
  have hlong : (bitsOfBytes (seg ++ post)).length = 8 * (seg.length + post.length) := by
    rw [length_bitsOfBytes, List.length_append]
  have hholds : J.2.Holds (bitsOfBytes (seg ++ post)) := ⟨by omega, by omega, by omega⟩
  have hinit : decodeInit (bitsOfBytes (seg ++ post)) =
      some ⟨natOfBits ((bitsOfBytes (seg ++ post)).take 9), 0x1FE,
        (bitsOfBytes (seg ++ post)).drop 9⟩ := by
    have hread := readBits_drop (m := 0) (n := 9) (l := bitsOfBytes (seg ++ post))
      (by simp only [cabacStart] at hdepth; omega)
    rw [List.drop_zero, zero_add] at hread
    rw [decodeInit, hread]
    rfl
  have hfollows : BinaryCoder.Follows cabacStart (bitsOfBytes (seg ++ post))
      ⟨natOfBits ((bitsOfBytes (seg ++ post)).take 9), 0x1FE,
        (bitsOfBytes (seg ++ post)).drop 9⟩ := by
    refine ⟨?_, rfl, (Nat.zero_add _).symm, rfl⟩
    omega
  rw [← hJ] at hholds
  obtain ⟨d, hdecode, hd⟩ :=
    (engine_invariant ctxCount).decode_encode hok hbins hfollows hholds
  rw [hJ] at hdecode hd
  have hoff := hd.offset
  have hend : decodeEnd d = true := by
    rw [decodeEnd, hd.range, decide_eq_true_iff]
    omega
  have hdrop : (8 * (seg ++ post).length - d.rest.length + 7) / 8 = seg.length := by
    rw [hd.rest, List.length_drop, List.length_append, hlong]
    omega
  rw [decodeSegment, hinit, Option.bind_some, hdecode, Option.bind_some, if_pos hend, hdrop,
    List.drop_left, hstate]

/-- The contexts start in none of the states that never change. -/
theorem cabacContext_bounds (m n : ℤ) (qp : ℕ) :
    2 ≤ cabacContext m n qp ∧ cabacContext m n qp < 128 := by
  have hclip : 1 ≤ clip3 (((m * qp) >>> (4 : ℕ)) + n) 1 126 ∧
      clip3 (((m * qp) >>> (4 : ℕ)) + n) 1 126 ≤ 126 := by
    rw [clip3]
    split_ifs <;> omega
  have htable : ∀ i : Fin 127, 1 ≤ i.val →
      2 ≤ (min i.val (127 - i.val) <<< 1) ||| (i.val >>> 6) ∧
        (min i.val (127 - i.val) <<< 1) ||| (i.val >>> 6) < 128 := by
    decide
  rw [cabacContext]
  generalize clip3 (((m * qp) >>> (4 : ℕ)) + n) 1 126 = x at *
  exact htable ⟨x.toNat, by omega⟩ (by simp only; omega)

theorem engineOk_contextInit (cb : Cabac) (table : Fin 1024 → ℤ × ℤ) (ctxCount iQp : ℕ) :
    EngineOk ctxCount (cb.contextInit table ctxCount iQp).state cabacStart.range where
  two_le c hc := by
    simp only [Cabac.contextInit, if_pos hc]
    exact (cabacContext_bounds _ _ _).1
  lt c hc := by
    simp only [Cabac.contextInit, if_pos hc]
    exact (cabacContext_bounds _ _ _).2
  range_ge := by decide
  range_lt := by decide

theorem coding_encodeInit (cb : Cabac) (bs : List UInt8) :
    Coding bs cabacStart (cb.encodeInit bs) := by
  change Coding bs cabacStart (Cabac.encodeInitCore { cb with pStart := bs.length, buf := bs })
  exact coding_initCore rfl

/-- The macroblocks up to one that is not coded, and the samples of that one. -/
structure PcmSegment where
  calls : List CabacCall
  samples : List UInt8

/-- A macroblock of type `I_PCM`: after a flush its samples follow as they are, and the coder starts
anew with the contexts that it has. -/
def Cabac.encodePcm (cb : Cabac) (iFrame : ℕ) (samples : List UInt8) : Cabac :=
  let cb := cb.encodeFlush iFrame
  { cb with buf := cb.buf ++ samples }.encodeInitCore

def Cabac.encodeSegment (iFrame : ℕ) (cb : Cabac) (s : PcmSegment) : Cabac :=
  (s.calls.foldl CabacCall.run cb).encodePcm iFrame s.samples

def Cabac.encodeSlice (cb : Cabac) (iFrame : ℕ) (segs : List PcmSegment)
    (last : List CabacCall) : Cabac :=
  (last.foldl CabacCall.run (segs.foldl (encodeSegment iFrame) cb)).encodeFlush iFrame

/-- Decodes the data of a slice, given what is asked for in each segment and how many samples
follow it. -/
def decodeSlice (last : List BinRequest) : (Fin 1024 → ℕ) → List UInt8 →
    List (List BinRequest × ℕ) → Option (List (List Bool × List UInt8) × List Bool × List UInt8)
  | state, bytes, [] => (decodeSegment state bytes last).map fun x => ([], x.1, x.2.2)
  | state, bytes, q :: qs =>
    (decodeSegment state bytes q.1).bind fun x =>
      (decodeSlice last x.2.1 (x.2.2.drop q.2) qs).map fun y =>
        ((x.1, x.2.2.take q.2) :: y.1, y.2)

def PcmSegment.request (s : PcmSegment) : List BinRequest × ℕ :=
  ((binsOf s.calls).map Prod.fst, s.samples.length)

def PcmSegment.content (s : PcmSegment) : List Bool × List UInt8 :=
  ((binsOf s.calls).map Prod.snd, s.samples)

/-- The contexts after any calls are still good ones. -/
theorem engineOk_calls (h : Coding pre cabacStart cb)
    (hok : EngineOk ctxCount cb.state cabacStart.range)
    (hcalls : ∀ c ∈ calls, c.Allowed ctxCount) :
    EngineOk ctxCount (calls.foldl CabacCall.run cb).state cabacStart.range := by
  have hstate := (coding_calls h hok hcalls).2
  have hok' := ((engine_invariant ctxCount).encode hok (binAllowed_of_mem_binsOf hcalls)).1
  rw [hstate]
  exact ⟨hok'.two_le, hok'.lt, by decide, by decide⟩

/-- After the samples the coder is at the start of its data again. -/
theorem encodeSegment_next {seg : List UInt8} {s : PcmSegment} {iFrame : ℕ}
    (h : Coding pre cabacStart cb) (hok : EngineOk ctxCount cb.state cabacStart.range)
    (hs : ∀ c ∈ s.calls, c.Allowed ctxCount)
    (hseg : ((s.calls.foldl CabacCall.run cb).encodeFlush iFrame).buf = pre ++ seg) :
    Coding (pre ++ seg ++ s.samples) cabacStart (cb.encodeSegment iFrame s) ∧
      EngineOk ctxCount (cb.encodeSegment iFrame s).state cabacStart.range ∧
      (cb.encodeSegment iFrame s).state = (s.calls.foldl CabacCall.run cb).state := by
  have hstate : (cb.encodeSegment iFrame s).state = (s.calls.foldl CabacCall.run cb).state :=
    encodeFlush_state _ _
  refine ⟨coding_initCore (by simp only [hseg]), ?_, hstate⟩
  rw [hstate]
  exact engineOk_calls h hok hs

theorem decodeSlice_encode {segs : List PcmSegment} {last : List CabacCall}
    (h : Coding pre cabacStart cb) (hok : EngineOk ctxCount cb.state cabacStart.range)
    (hsegs : ∀ s ∈ segs, ∀ c ∈ s.calls, c.Allowed ctxCount)
    (hlast : ∀ c ∈ last, c.Allowed ctxCount) (iFrame : ℕ) :
    ∃ data, (cb.encodeSlice iFrame segs last).buf = pre ++ data ∧
      ∀ post, decodeSlice ((binsOf last).map Prod.fst) cb.state (data ++ post)
          (segs.map PcmSegment.request) =
        some (segs.map PcmSegment.content, (binsOf last).map Prod.snd, post) := by
  induction segs generalizing cb pre with
  | nil =>
    obtain ⟨seg, hbuf, hseg⟩ := decodeSegment_encode h hok hlast iFrame
    refine ⟨seg, hbuf, fun post => ?_⟩
    simp only [List.map_nil]
    rw [decodeSlice, hseg post]
    rfl
  | cons s segs ih =>
    have hs : ∀ c ∈ s.calls, c.Allowed ctxCount := hsegs s List.mem_cons_self
    obtain ⟨seg, hbuf, hseg⟩ := decodeSegment_encode h hok hs iFrame
    obtain ⟨hstart, hok', hstate⟩ := encodeSegment_next h hok hs hbuf
    rw [← hstate] at hseg
    obtain ⟨data, hdata, hdecode⟩ :=
      ih hstart hok' (fun t ht => hsegs t (List.mem_cons_of_mem _ ht))
    refine ⟨seg ++ (s.samples ++ data), ?_, fun post => ?_⟩
    · rw [← List.append_assoc, ← List.append_assoc]
      exact hdata
    · rw [List.map_cons, decodeSlice, List.append_assoc, List.append_assoc]
      simp only [PcmSegment.request]
      rw [hseg, Option.bind_some, List.drop_left, List.take_left, hdecode post]
      rfl

/-- The data of a slice, with any macroblocks of samples between those that are coded, gives a
decoder back every symbol and every sample, and leaves what comes before and after it alone. -/
theorem cabac_slice_round_trip (cb : Cabac) (table : Fin 1024 → ℤ × ℤ) (ctxCount iQp iFrame : ℕ)
    (bs : List UInt8) (segs : List PcmSegment) (last : List CabacCall)
    (hsegs : ∀ s ∈ segs, ∀ c ∈ s.calls, c.Allowed ctxCount)
    (hlast : ∀ c ∈ last, c.Allowed ctxCount) :
    let start := (cb.contextInit table ctxCount iQp).encodeInit bs
    ∃ data, (start.encodeSlice iFrame segs last).buf = bs ++ data ∧
      ∀ post, decodeSlice ((binsOf last).map Prod.fst) start.state (data ++ post)
          (segs.map PcmSegment.request) =
        some (segs.map PcmSegment.content, (binsOf last).map Prod.snd, post) := by
  intro start
  have hcoding : Coding bs cabacStart start := coding_encodeInit _ bs
  exact decodeSlice_encode hcoding (engineOk_contextInit cb table ctxCount iQp) hsegs hlast iFrame

/-- The memory of a coder that was never used. -/
def Cabac.fresh : Cabac :=
  ⟨0, 0, 0, 0, 0, [], fun _ => 0⟩

theorem cabac_slice_round_trip_pcm :
    ∃ data, (((Cabac.fresh.contextInit (fun _ => (0, 64)) 460 32).encodeInit [0x65]).encodeSlice 0
        [⟨[.decision 3 true], [1, 2]⟩] [.terminal, .ueBypass 3 5]).buf = [0x65] ++ data ∧
      ∀ post, decodeSlice ((binsOf [.terminal, .ueBypass 3 5]).map Prod.fst)
          ((Cabac.fresh.contextInit (fun _ => (0, 64)) 460 32).encodeInit [0x65]).state
          (data ++ post) [([.decision 3], 2)] =
        some ([([true], [1, 2])], (binsOf [.terminal, .ueBypass 3 5]).map Prod.snd, post) :=
  cabac_slice_round_trip Cabac.fresh (fun _ => (0, 64)) 460 32 0 [0x65]
    [⟨[.decision 3 true], [1, 2]⟩] [.terminal, .ueBypass 3 5]
    (by decide) (by decide)

@[simp] theorem encodeRenorm_pStart (cb : Cabac) : cb.encodeRenorm.pStart = cb.pStart := by
  simp [Cabac.encodeRenorm]

theorem encodeUeBypassLoop_pStart (x fuel k i : ℕ) (cb : Cabac) :
    (Cabac.encodeUeBypassLoop x fuel k i cb).pStart = cb.pStart := by
  induction fuel generalizing k i cb with
  | zero => rfl
  | succ fuel ih =>
    rw [Cabac.encodeUeBypassLoop]
    split_ifs
    · rw [ih, Cabac.putbyte_pStart]
    · rw [Cabac.putbyte_pStart]

@[simp] theorem run_pStart (c : CabacCall) (cb : Cabac) : (c.run cb).pStart = cb.pStart := by
  cases c with
  | decision i b =>
    simp only [CabacCall.run, Cabac.encodeDecision, encodeRenorm_pStart]
    split_ifs <;> rfl
  | bypass b => exact Cabac.putbyte_pStart _
  | ueBypass e v => exact encodeUeBypassLoop_pStart _ _ _ _ _
  | terminal => exact encodeRenorm_pStart _

@[simp] theorem calls_pStart (calls : List CabacCall) (cb : Cabac) :
    (calls.foldl CabacCall.run cb).pStart = cb.pStart := by
  induction calls generalizing cb with
  | nil => rfl
  | cons c calls ih => rw [List.foldl_cons, ih, run_pStart]

@[simp] theorem encodeFlush_pStart (cb : Cabac) (iFrame : ℕ) :
    (cb.encodeFlush iFrame).pStart = cb.pStart := by
  simp [Cabac.encodeFlush]

/-- What the flush writes depends on the interval alone. -/
theorem encodeFlush_congr {cb' : Cabac} (h : Coding pre I cb) (h' : Coding pre I cb')
    (hr : 2 ≤ I.range) (iFrame : ℕ) :
    (cb.encodeFlush iFrame).buf = (cb'.encodeFlush iFrame).buf := by
  obtain ⟨seg, pad, hbuf, hpad, hbits⟩ := coding_flush h hr iFrame
  obtain ⟨seg', pad', hbuf', hpad', hbits'⟩ := coding_flush h' hr iFrame
  have hlen := congrArg List.length hbits
  have hlen' := congrArg List.length hbits'
  simp only [length_bitsOfBytes, List.length_append, length_bitsOfNat] at hlen hlen'
  obtain rfl : pad = pad' := by omega
  rw [hbuf, hbuf', bitsOfBytes_injective (hbits.trans hbits'.symm)]

/-- A group of calls can be replaced by another with the same symbols. -/
theorem calls_flush_congr {calls' : List CabacCall} (h : Coding pre cabacStart cb)
    (hok : EngineOk ctxCount cb.state cabacStart.range)
    (hcalls : ∀ c ∈ calls, c.Allowed ctxCount) (hcalls' : ∀ c ∈ calls', c.Allowed ctxCount)
    (hbins : binsOf calls = binsOf calls') (iFrame : ℕ) :
    ((calls.foldl CabacCall.run cb).encodeFlush iFrame).buf =
        ((calls'.foldl CabacCall.run cb).encodeFlush iFrame).buf ∧
      (calls.foldl CabacCall.run cb).state = (calls'.foldl CabacCall.run cb).state := by
  obtain ⟨hcoding, hstate⟩ := coding_calls h hok hcalls
  obtain ⟨hcoding', hstate'⟩ := coding_calls h hok hcalls'
  have hok' := ((engine_invariant ctxCount).encode hok (binAllowed_of_mem_binsOf hcalls)).1
  rw [← hbins] at hcoding' hstate'
  refine ⟨encodeFlush_congr hcoding hcoding' (le_trans (by omega) hok'.range_ge) iFrame, ?_⟩
  rw [hstate, hstate']

theorem encodeSegment_congr {s s' : PcmSegment} (h : Coding pre cabacStart cb)
    (hok : EngineOk ctxCount cb.state cabacStart.range) (hs : ∀ c ∈ s.calls, c.Allowed ctxCount)
    (hs' : ∀ c ∈ s'.calls, c.Allowed ctxCount) (hbins : binsOf s.calls = binsOf s'.calls)
    (hsamples : s.samples = s'.samples) (iFrame : ℕ) :
    cb.encodeSegment iFrame s = cb.encodeSegment iFrame s' := by
  obtain ⟨hbuf, hstate⟩ := calls_flush_congr h hok hs hs' hbins iFrame
  simp only [Cabac.encodeSegment, Cabac.encodePcm, Cabac.encodeInitCore, hbuf, hsamples,
    encodeFlush_pStart, calls_pStart, encodeFlush_state, hstate]

/-- The bytes of a slice depend on its symbols and samples, not on how the calls group them: the
table of `x264_cabac_encode_ue_bypass` and its eight bits at a time write what single bits would. -/
theorem encodeSlice_eq_of_bins (cb : Cabac) (table : Fin 1024 → ℤ × ℤ) (ctxCount iQp iFrame : ℕ)
    (bs : List UInt8) (segs segs' : List PcmSegment) (last last' : List CabacCall)
    (hsegs : ∀ s ∈ segs ++ segs', ∀ c ∈ s.calls, c.Allowed ctxCount)
    (hlast : ∀ c ∈ last ++ last', c.Allowed ctxCount)
    (heq : segs.map (fun s => (binsOf s.calls, s.samples)) =
      segs'.map (fun s => (binsOf s.calls, s.samples)))
    (heq' : binsOf last = binsOf last') :
    (((cb.contextInit table ctxCount iQp).encodeInit bs).encodeSlice iFrame segs last).buf =
      (((cb.contextInit table ctxCount iQp).encodeInit bs).encodeSlice iFrame segs' last').buf := by
  have hcoding : Coding bs cabacStart ((cb.contextInit table ctxCount iQp).encodeInit bs) :=
    coding_encodeInit _ bs
  have hok : EngineOk ctxCount ((cb.contextInit table ctxCount iQp).encodeInit bs).state
    cabacStart.range := engineOk_contextInit cb table ctxCount iQp
  generalize (cb.contextInit table ctxCount iQp).encodeInit bs = start at *
  generalize bs = pre at hcoding
  induction segs generalizing segs' start pre with
  | nil =>
    obtain rfl : segs' = [] := by simpa using heq.symm
    exact (calls_flush_congr hcoding hok (fun c hc => hlast c (List.mem_append_left _ hc))
      (fun c hc => hlast c (List.mem_append_right _ hc)) heq' iFrame).1
  | cons s segs ih =>
    cases segs' with
    | nil => simp at heq
    | cons s' segs' =>
      simp only [List.map_cons, List.cons.injEq, Prod.mk.injEq] at heq
      obtain ⟨⟨hbins, hsamples⟩, heq⟩ := heq
      have hs : ∀ c ∈ s.calls, c.Allowed ctxCount := hsegs s (by simp)
      have hs' : ∀ c ∈ s'.calls, c.Allowed ctxCount := hsegs s' (by simp)
      have hseg := encodeSegment_congr hcoding hok hs hs' hbins hsamples iFrame
      obtain ⟨seg, hseg', -⟩ := decodeSegment_encode hcoding hok hs iFrame
      obtain ⟨hstart, hok', -⟩ := encodeSegment_next hcoding hok hs hseg'
      have hrest : ∀ t ∈ segs ++ segs', ∀ c ∈ t.calls, c.Allowed ctxCount := by
        intro t ht
        apply hsegs
        rcases List.mem_append.mp ht with ht | ht
        · simp [ht]
        · simp [ht]
      have hih := ih segs' hrest heq _ hok' _ hstart
      rw [Cabac.encodeSlice, List.foldl_cons, Cabac.encodeSlice, List.foldl_cons, ← hseg]
      exact hih

theorem encodeSlice_eq_of_bins_ueBypass :
    (((Cabac.fresh.contextInit (fun _ => (0, 64)) 460 32).encodeInit [0x65]).encodeSlice 0 []
        [.ueBypass 0 1]).buf =
      (((Cabac.fresh.contextInit (fun _ => (0, 64)) 460 32).encodeInit [0x65]).encodeSlice 0 []
        [.bypass true, .bypass false, .bypass false]).buf :=
  encodeSlice_eq_of_bins Cabac.fresh (fun _ => (0, 64)) 460 32 0 [0x65] [] [] [.ueBypass 0 1]
    [.bypass true, .bypass false, .bypass false] (by simp)
    (by decide) rfl
    (by simp [binsOf, CabacCall.bins, ueBins, bitsOfNat])

end Pc2Drc
