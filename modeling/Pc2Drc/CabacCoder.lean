import Pc2Drc.CabacCarry
import Mathlib.Tactic.Linarith
import Mathlib.Tactic.Zify

/-! The coder against the arithmetic coding that it is for: every call narrows the interval as its
symbols do, with the interval's low end spread over the output, the held back bytes and the
register. -/
namespace Pc2Drc

open Lib

/-- What the decoder is asked for. -/
inductive BinRequest
  | decision (iCtx : Fin 1024)
  | bypass
  | terminate
  deriving DecidableEq, Repr

/-- The engine that the coder and the decoder of the stream share. -/
def cabacEngine : BinaryCoder (Fin 1024 → ℕ) BinRequest where
  split state r range :=
    match r with
    | .decision c =>
      ⟨0, (state c).testBit 0, range - rangeLpsAt (state c) range, rangeLpsAt (state c) range⟩
    | .bypass => ⟨1, false, range, range⟩
    | .terminate => ⟨0, false, range - 2, 2⟩
  next state r b :=
    match r with
    | .decision c => Function.update state c (transitionAt (state c) b)
    | .bypass => state
    | .terminate => state
  renorm := renormShiftAt

/-- The interval before the first symbol. -/
def cabacStart : CodeInterval :=
  ⟨0, 0x1FE, 9⟩

/-- A symbol inside the data: one of the contexts that are set, or no end. -/
def BinAllowed (ctxCount : ℕ) (r : BinRequest) (b : Bool) : Prop :=
  match r with
  | .decision c => c < ctxCount
  | .bypass => True
  | .terminate => b = false

/-- The contexts that are set are neither of the two that never change, and the range is
normalised. -/
structure EngineOk (ctxCount : ℕ) (state : Fin 1024 → ℕ) (range : ℕ) : Prop where
  two_le : ∀ c : Fin 1024, c < ctxCount → 2 ≤ state c
  lt : ∀ c : Fin 1024, c < ctxCount → state c < 128
  range_ge : 256 ≤ range
  range_lt : range < 512

theorem rangeLps_bounds : ∀ i : Fin 64, 1 ≤ i.val → ∀ j : Fin 4,
    6 + j.val ≤ (rangeLps.getD i []).getD j 0 ∧
      (rangeLps.getD i []).getD j 0 + 128 ≤ 64 * (j.val + 4) := by
  decide

theorem transition_bounds : ∀ i : Fin 128, 2 ≤ i.val → ∀ b : Bool,
    2 ≤ transitionAt i b ∧ transitionAt i b < 128 := by
  decide

theorem renormShift_bounds : ∀ i : Fin 512, 6 ≤ i.val →
    renormShiftAt i ≤ 6 ∧ 256 ≤ i.val * 2 ^ renormShiftAt i ∧
      i.val * 2 ^ renormShiftAt i < 512 := by
  decide +kernel

variable {ctxCount : ℕ} {state : Fin 1024 → ℕ} {range : ℕ}

theorem rangeLpsAt_bounds {iState : ℕ} (h2 : 2 ≤ iState) (h128 : iState < 128) (hr : 256 ≤ range)
    (hr' : range < 512) : 6 ≤ rangeLpsAt iState range ∧ rangeLpsAt iState range + 128 ≤ range ∧
      range ≤ 57 * rangeLpsAt iState range := by
  have hi : iState >>> 1 = iState / 2 := Nat.shiftRight_eq_div_pow iState 1
  have hj : range >>> 6 = range / 64 := Nat.shiftRight_eq_div_pow range 6
  obtain ⟨hlow, hhigh⟩ := rangeLps_bounds ⟨iState / 2, by omega⟩ (by simp only; omega)
    ⟨range / 64 - 4, by omega⟩
  rw [rangeLpsAt, hi, hj]
  simp only at hlow hhigh
  generalize (rangeLps.getD (iState / 2) []).getD (range / 64 - 4) 0 = lps at *
  omega

theorem renorm_bounds {x : ℕ} (h6 : 6 ≤ x) (h512 : x < 512) :
    renormShiftAt x ≤ 6 ∧ 256 ≤ x * 2 ^ renormShiftAt x ∧ x * 2 ^ renormShiftAt x < 512 :=
  renormShift_bounds ⟨x, h512⟩ h6

/-- The parts of a split are at least as wide as one renormalisation can repair. -/
theorem engine_width {r : BinRequest} {b : Bool} (h : EngineOk ctxCount state range)
    (ha : BinAllowed ctxCount r b) :
    6 ≤ (cabacEngine.split state r range).width b ∧
      (cabacEngine.split state r range).width b < 512 := by
  have hr := h.range_ge
  have hr' := h.range_lt
  cases r with
  | decision c =>
    obtain ⟨h6, h128, -⟩ := rangeLpsAt_bounds (h.two_le c ha) (h.lt c ha) hr hr'
    rcases (cabacEngine.split state (.decision c) range).width_cases b with hw | hw
    · rw [hw]
      simp only [cabacEngine]
      omega
    · rw [hw]
      simp only [cabacEngine]
      omega
  | bypass =>
    have hw : (cabacEngine.split state .bypass range).width b = range := by
      rcases (cabacEngine.split state .bypass range).width_cases b with hw | hw
      · exact hw
      · exact hw
    omega
  | terminate =>
    obtain rfl : b = false := ha
    have hw : (cabacEngine.split state .terminate range).width false = range - 2 := rfl
    omega

/-- The engine never leaves the states in which its tables are right. -/
theorem engine_invariant (ctxCount : ℕ) :
    cabacEngine.Invariant (BinAllowed ctxCount) (EngineOk ctxCount) where
  fits state range r b h ha := by
    have hr := h.range_ge
    have hr' := h.range_lt
    cases r with
    | decision c =>
      obtain ⟨-, h128, -⟩ := rangeLpsAt_bounds (h.two_le c ha) (h.lt c ha) hr hr'
      simp only [cabacEngine, Split.Fits, pow_zero, mul_one]
      omega
    | bypass =>
      simp only [cabacEngine, Split.Fits, pow_one]
      omega
    | terminate =>
      simp only [cabacEngine, Split.Fits, pow_zero, mul_one]
      omega
  next state I r b h ha := by
    obtain ⟨h6, h512⟩ := engine_width h ha
    obtain ⟨-, hge, hlt⟩ := renorm_bounds h6 h512
    refine ⟨?_, ?_, hge, hlt⟩
    · intro c hc
      cases r with
      | decision c' =>
        by_cases heq : c = c'
        · subst heq
          have hbounds := transition_bounds ⟨state c, h.lt c hc⟩ (h.two_le c hc) b
          simpa [cabacEngine] using hbounds.1
        · simpa [cabacEngine, Function.update_of_ne heq] using h.two_le c hc
      | bypass => exact h.two_le c hc
      | terminate => exact h.two_le c hc
    · intro c hc
      cases r with
      | decision c' =>
        by_cases heq : c = c'
        · subst heq
          have hbounds := transition_bounds ⟨state c, h.lt c hc⟩ (h.two_le c hc) b
          simpa [cabacEngine] using hbounds.2
        · simpa [cabacEngine, Function.update_of_ne heq] using h.lt c hc
      | bypass => exact h.lt c hc
      | terminate => exact h.lt c hc

variable {pre : List UInt8} {I : CodeInterval} {cb : Cabac}

/-- Between two calls: the coder has come to the interval `I`, after the bytes `pre` that were there
before it. -/
structure Coding (pre : List UInt8) (I : CodeInterval) (cb : Cabac) : Prop where
  range : cb.iRange = I.range
  top : I.low + I.range ≤ 2 ^ I.bits
  holds : ∃ seg w, w ≤ 17 ∧ Holding pre seg w I cb

/-- The coder at the start of the data. -/
theorem coding_initCore (hbuf : cb.buf = pre) : Coding pre cabacStart cb.encodeInitCore where
  range := rfl
  top := by decide
  holds := by
    refine ⟨[], 9, by omega, ?_, rfl, rfl, ?_, by simp, ?_, le_rfl⟩
    · simp [Cabac.encodeInitCore, hbuf]
    · simp [Cabac.encodeInitCore, cabacStart]
    · simp [Cabac.encodeInitCore, cabacStart]

/-- Bits come to the register, and a byte leaves it when it is full. -/
theorem Coding.put {c : Cabac} {s x r : ℕ} (h : Coding pre I cb) (hs : s ≤ 8)
    (hx : x + r ≤ I.range * 2 ^ s) (hr : 0 < r) (hr' : r ≤ 2 ^ 9) (hrange : c.iRange = r)
    (hbuf : c.buf = cb.buf) (hout : c.iBytesOutstanding = cb.iBytesOutstanding)
    (hlow : c.iLow = cb.iLow * 2 ^ s + x) (hqueue : c.iQueue = cb.iQueue + s) :
    Coding pre ⟨I.low * 2 ^ s + x, r, I.bits + s⟩ c.putbyte := by
  obtain ⟨seg, w, hw, hold⟩ := h.holds
  have hshift := hold.shift hx hbuf hout hlow hqueue
  have htop : I.low * 2 ^ s + x + r ≤ 2 ^ (I.bits + s) := by
    have hmul := Nat.mul_le_mul_right (2 ^ s) h.top
    rw [add_mul, ← pow_add] at hmul
    omega
  refine ⟨(Cabac.putbyte_iRange c).trans hrange, htop, ?_⟩
  by_cases hfull : w + s < 18
  · rw [hshift.putbyte_eq_self hfull]
    exact ⟨seg, w + s, by omega, hshift⟩
  · obtain ⟨v, hv⟩ : ∃ v, w + s = v + 8 := ⟨w + s - 8, by omega⟩
    rw [hv] at hshift
    obtain ⟨⟨seg', hseg'⟩, -⟩ := hshift.putbyte (by omega) hr hr' htop
    exact ⟨seg', v, by omega, hseg'⟩

/-- A renormalisation ends every symbol that divides the range. -/
theorem Coding.renorm {x r : ℕ} {c : Cabac} (h : Coding pre I cb) (hx : x + r ≤ I.range)
    (hr : 6 ≤ r) (hr' : r < 512) (hrange : c.iRange = r) (hbuf : c.buf = cb.buf)
    (hout : c.iBytesOutstanding = cb.iBytesOutstanding) (hlow : c.iLow = cb.iLow + x)
    (hqueue : c.iQueue = cb.iQueue) :
    Coding pre ⟨(I.low + x) * 2 ^ renormShiftAt r, r * 2 ^ renormShiftAt r,
      I.bits + renormShiftAt r⟩ c.encodeRenorm := by
  obtain ⟨hk, hge, hlt⟩ := renorm_bounds hr hr'
  rw [add_mul]
  apply h.put (c := { c with
    iRange := c.iRange <<< renormShiftAt c.iRange
    iLow := c.iLow <<< renormShiftAt c.iRange
    iQueue := c.iQueue + renormShiftAt c.iRange })
  · omega
  · rw [← add_mul]
    exact Nat.mul_le_mul_right _ hx
  · omega
  · omega
  · simp only [hrange, Nat.shiftLeft_eq]
  · exact hbuf
  · exact hout
  · simp only [hrange, hlow, Nat.shiftLeft_eq, add_mul]
  · simp only [hrange, hqueue]

@[simp] theorem encodeRenorm_state (cb : Cabac) : cb.encodeRenorm.state = cb.state := by
  simp [Cabac.encodeRenorm]

theorem coding_decision {c : Fin 1024} (h : Coding pre I cb)
    (hok : EngineOk ctxCount cb.state I.range) (hc : c < ctxCount) (b : Bool) :
    Coding pre (cabacEngine.narrow cb.state I (.decision c) b) (cb.encodeDecision c b) ∧
      (cb.encodeDecision c b).state = cabacEngine.next cb.state (.decision c) b := by
  obtain ⟨h6, h128, -⟩ := rangeLpsAt_bounds (hok.two_le c hc) (hok.lt c hc) hok.range_ge
    hok.range_lt
  have hr' := hok.range_lt
  have hbit : b.toNat ≠ cb.state c &&& 1 ↔ b ≠ (cb.state c).testBit 0 := by
    rw [Nat.and_one_is_mod, Nat.testBit_zero]
    have hmod := Nat.mod_two_eq_zero_or_one (cb.state c)
    cases b <;> rcases hmod with hmod | hmod <;> simp [hmod]
  rw [Cabac.encodeDecision, h.range]
  simp only [encodeRenorm_state]
  by_cases hmps : b = (cb.state c).testBit 0
  · obtain ⟨hoff, hwidth⟩ := Split.of_eq_mps (p := cabacEngine.split cb.state (.decision c) I.range)
      hmps
    rw [if_neg (by rw [hbit]; simpa using hmps), BinaryCoder.narrow_of_pre_zero rfl hoff hwidth]
    exact ⟨h.renorm (by simp only [cabacEngine]; omega) (by simp only [cabacEngine]; omega)
      (by simp only [cabacEngine]; omega) rfl rfl rfl rfl rfl, rfl⟩
  · obtain ⟨hoff, hwidth⟩ := Split.of_ne_mps (p := cabacEngine.split cb.state (.decision c) I.range)
      hmps
    rw [if_pos (hbit.mpr hmps), BinaryCoder.narrow_of_pre_zero rfl hoff hwidth]
    exact ⟨h.renorm (by simp only [cabacEngine]; omega) (by simp only [cabacEngine]; omega)
      (by simp only [cabacEngine]; omega) rfl rfl rfl rfl rfl, rfl⟩

theorem coding_terminal (h : Coding pre I cb) (hok : EngineOk ctxCount cb.state I.range) :
    Coding pre (cabacEngine.narrow cb.state I .terminate false) cb.encodeTerminal ∧
      cb.encodeTerminal.state = cb.state := by
  have hr := hok.range_ge
  have hr' := hok.range_lt
  have hnarrow := BinaryCoder.narrow_of_pre_zero (C := cabacEngine) (s := cb.state) (I := I)
    (r := .terminate) (b := false) (x := 0) (w := I.range - 2) rfl rfl rfl
  rw [Cabac.encodeTerminal, h.range, hnarrow]
  exact ⟨h.renorm (by omega) (by omega) (by omega) rfl rfl rfl rfl rfl, by simp⟩

theorem renormShiftAt_eq_zero : ∀ i : Fin 512, 256 ≤ i.val → renormShiftAt i = 0 := by
  decide +kernel

theorem narrow_bypass (hok : EngineOk ctxCount state I.range) (b : Bool) :
    cabacEngine.narrow state I .bypass b =
      ⟨I.low * 2 + b.toNat * I.range, I.range, I.bits + 1⟩ := by
  have hzero : renormShiftAt I.range = 0 :=
    renormShiftAt_eq_zero ⟨I.range, hok.range_lt⟩ hok.range_ge
  cases b <;> simp [BinaryCoder.narrow, cabacEngine, Split.offset, Split.width, hzero]

/-- The symbols that no context is asked for are the bits of a factor of the range. -/
theorem encode_bypass (hok : EngineOk ctxCount state I.range) (bs : List Bool) :
    cabacEngine.encode state I (bs.map fun b => (.bypass, b)) =
      (state, ⟨I.low * 2 ^ bs.length + natOfBits bs * I.range, I.range, I.bits + bs.length⟩) := by
  induction bs using List.reverseRecOn with
  | nil => simp [BinaryCoder.encode]
  | append_singleton bs b ih =>
    rw [List.map_append, BinaryCoder.encode_append, ih]
    simp only [List.map_cons, List.map_nil, BinaryCoder.encode]
    have hlast := narrow_bypass
      (I := ⟨I.low * 2 ^ bs.length + natOfBits bs * I.range, I.range, I.bits + bs.length⟩) hok b
    rw [hlast, natOfBits_concat, List.length_append, List.length_singleton, pow_succ]
    refine Prod.ext rfl ?_
    simp only [CodeInterval.mk.injEq, true_and]
    refine ⟨by ring, by ring⟩

/-- Several bits at once, as the factor `d` of the range. -/
theorem Coding.bits {i d : ℕ} (h : Coding pre I cb) (hr : 0 < I.range) (hr' : I.range < 512)
    (hi : i ≤ 8) (hd : d < 2 ^ i) :
    Coding pre ⟨I.low * 2 ^ i + d * I.range, I.range, I.bits + i⟩
      (Cabac.putbyte { cb with
        iLow := (cb.iLow <<< i) + d * cb.iRange
        iQueue := cb.iQueue + i }) := by
  have hle : (d + 1) * I.range ≤ 2 ^ i * I.range := Nat.mul_le_mul_right _ hd
  apply h.put hi
  · rw [mul_comm I.range]
    rw [add_mul, one_mul] at hle
    exact hle
  · exact hr
  · omega
  · exact h.range
  · rfl
  · rfl
  · simp only [Nat.shiftLeft_eq, h.range]
  · rfl

theorem coding_bypass (h : Coding pre I cb) (hok : EngineOk ctxCount cb.state I.range) (b : Bool) :
    Coding pre (cabacEngine.narrow cb.state I .bypass b) (cb.encodeBypass b) ∧
      (cb.encodeBypass b).state = cb.state := by
  have hr := hok.range_ge
  have hbits := h.bits (i := 1) (d := b.toNat) (by omega) hok.range_lt (by omega)
    (Bool.toNat_lt b)
  rw [narrow_bypass hok]
  refine ⟨?_, by simp [Cabac.encodeBypass]⟩
  have heq : (if b then cb.iRange else 0) = b.toNat * cb.iRange := by cases b <;> simp
  rw [Cabac.encodeBypass, heq]
  exact hbits

/-- The digits of the loop of `x264_cabac_encode_ue_bypass`, the highest first. -/
theorem coding_ueBypassLoop {x k i : ℕ} (fuel : ℕ) (h : Coding pre I cb) (hr : 0 < I.range)
    (hr' : I.range < 512) (hi : 0 < i) (hi' : i ≤ 8) (hik : i ≤ k) (hk : k ≤ fuel)
    (h8 : 8 ∣ k - i) (hx : (x >>> (k - i)) &&& 0xff = x % 2 ^ k / 2 ^ (k - i)) :
    Coding pre ⟨I.low * 2 ^ k + x % 2 ^ k * I.range, I.range, I.bits + k⟩
        (Cabac.encodeUeBypassLoop x fuel k i cb) ∧
      (Cabac.encodeUeBypassLoop x fuel k i cb).state = cb.state := by
  induction fuel generalizing k i I cb with
  | zero => omega
  | succ fuel ih =>
    have hpow : 2 ^ k = 2 ^ i * 2 ^ (k - i) := by rw [← pow_add, Nat.add_sub_cancel' hik]
    have hd : x % 2 ^ k / 2 ^ (k - i) < 2 ^ i := by
      rw [Nat.div_lt_iff_lt_mul (Nat.two_pow_pos _), ← hpow]
      exact Nat.mod_lt _ (Nat.two_pow_pos _)
    have hsplit : x % 2 ^ k = x % 2 ^ k / 2 ^ (k - i) * 2 ^ (k - i) + x % 2 ^ (k - i) := by
      have hmod : x % 2 ^ k % 2 ^ (k - i) = x % 2 ^ (k - i) := by
        rw [hpow]
        exact Nat.mod_mul_left_mod ..
      rw [← hmod, Nat.div_add_mod']
    rw [Cabac.encodeUeBypassLoop, hx]
    generalize x % 2 ^ k / 2 ^ (k - i) = d at *
    have hbits := h.bits hr hr' hi' hd
    have hlow : I.low * 2 ^ k + x % 2 ^ k * I.range =
        (I.low * 2 ^ i + d * I.range) * 2 ^ (k - i) + x % 2 ^ (k - i) * I.range := by
      rw [hsplit, hpow]
      ring
    rw [hlow, show I.bits + k = I.bits + i + (k - i) by omega]
    split_ifs with hmore
    · obtain ⟨m, hm⟩ := h8
      have hbyte : (x >>> (k - i - 8)) &&& 0xff = x % 2 ^ (k - i) / 2 ^ (k - i - 8) := by
        rw [show 0xff = 2 ^ 8 - 1 from rfl, Nat.and_two_pow_sub_one_eq_mod,
          Nat.shiftRight_eq_div_pow, show 2 ^ (k - i) = 2 ^ (k - i - 8) * 2 ^ 8 by
            rw [← pow_add, show k - i - 8 + 8 = k - i by omega], Nat.mod_mul_right_div_self]
      obtain ⟨hloop, hstate⟩ := ih hbits hr hr' (by omega) le_rfl (by omega) (by omega)
        ⟨m - 1, by omega⟩ hbyte
      exact ⟨hloop, hstate.trans (by simp)⟩
    · have hki : k - i = 0 := by omega
      refine ⟨?_, by simp⟩
      rw [hki, pow_zero, Nat.mod_one, mul_one, zero_mul, add_zero, add_zero]
      exact hbits

/-- The bits of an exp-Golomb code of order `k`, one after the other as the standard makes them. -/
def ueBins (k v : ℕ) : List Bool :=
  if 2 ^ k ≤ v then true :: ueBins (k + 1) (v - 2 ^ k) else false :: bitsOfNat k v
termination_by v
decreasing_by
  have hpos := Nat.two_pow_pos k
  omega

theorem natOfBits_cons (b : Bool) (l : List Bool) :
    natOfBits (b :: l) = b.toNat * 2 ^ l.length + natOfBits l := by
  rw [← List.singleton_append, natOfBits_append]
  simp [natOfBits]

/-- Their count and their number, from the place of the highest bit of `v + 2 ^ k`. -/
theorem ueBins_spec {k v n : ℕ} (hn : (v + 2 ^ k).log2 = n) :
    k ≤ n ∧ (ueBins k v).length = 2 * n + 1 - k ∧
      natOfBits (ueBins k v) + 3 * 2 ^ n = 2 ^ (n - k + 1) * 2 ^ n + (v + 2 ^ k) := by
  induction k, v using ueBins.induct with
  | case1 k v hle ih =>
    have heq : v - 2 ^ k + 2 ^ (k + 1) = v + 2 ^ k := by
      rw [pow_succ]
      omega
    rw [heq] at ih
    obtain ⟨hkn, hlen, hnat⟩ := ih hn
    rw [ueBins, if_pos hle, List.length_cons, natOfBits_cons, hlen]
    refine ⟨by omega, by omega, ?_⟩
    have hpow : 2 ^ (2 * n + 1 - (k + 1)) = 2 ^ (n - (k + 1) + 1) * 2 ^ n := by
      rw [← pow_add]
      congr 1
      omega
    rw [hpow, Bool.toNat_true, one_mul, show n - k + 1 = n - (k + 1) + 1 + 1 by omega,
      pow_succ 2 (n - (k + 1) + 1), mul_right_comm]
    omega
  | case2 k v hlt =>
    have hk : n = k := by
      rw [← hn, Nat.log2_eq_iff (by have hpos := Nat.two_pow_pos k; omega), pow_succ]
      omega
    subst hk
    rw [ueBins, if_neg hlt, List.length_cons, length_bitsOfNat, natOfBits_cons,
      natOfBits_bitsOfNat, Nat.mod_eq_of_lt (by omega), Nat.sub_self]
    refine ⟨le_rfl, by omega, ?_⟩
    simp only [Bool.toNat_false, zero_mul, zero_add, pow_one]
    ring

theorem bypassLut_eq : ∀ j : Fin 16,
    bypassLut.getD j 0 = (2 ^ (j.val + 1) - 3) * 2 ^ j.val := by
  decide

/-- The table turns the value into its code. -/
theorem ueBypass_code {e v n : ℕ} (hn : (v + 2 ^ e).log2 = n) (hlen : 2 * n + 1 - e < 32) :
    ((bypassLut.getD (n - e) 0 * 2 ^ e + ((v + 2 ^ e : ℕ) : ℤ)) % 2 ^ 32).toNat =
      natOfBits (ueBins e v) := by
  obtain ⟨hen, hcount, hnat⟩ := ueBins_spec hn
  have hlt : natOfBits (ueBins e v) < 2 ^ 32 :=
    (natOfBits_lt _).trans_le (Nat.pow_le_pow_right (by omega) (by omega))
  have hpow : (2 : ℤ) ^ (n - e) * 2 ^ e = 2 ^ n := by
    rw [← pow_add, Nat.sub_add_cancel hen]
  have hcode : (2 ^ (n - e + 1) - 3) * 2 ^ (n - e) * 2 ^ e + ((v + 2 ^ e : ℕ) : ℤ) =
      natOfBits (ueBins e v) := by
    rw [mul_assoc, hpow]
    zify at hnat
    push_cast
    linarith
  rw [bypassLut_eq ⟨n - e, by omega⟩]
  simp only
  rw [hcode, Int.emod_eq_of_lt (by omega) (by omega), Int.toNat_natCast]

theorem coding_ueBypass {e v : ℕ} (h : Coding pre I cb)
    (hok : EngineOk ctxCount cb.state I.range) (hlen : 2 * (v + 2 ^ e).log2 + 1 - e < 32) :
    Coding pre (cabacEngine.encode cb.state I ((ueBins e v).map fun b => (.bypass, b))).2
        (cb.encodeUeBypass e v) ∧
      (cb.encodeUeBypass e v).state = cb.state := by
  have hr := hok.range_ge
  obtain ⟨hen, hcount, -⟩ := ueBins_spec (k := e) (v := v) rfl
  have hcode := ueBypass_code (e := e) (v := v) rfl hlen
  have hlt := natOfBits_lt (ueBins e v)
  rw [encode_bypass hok, hcount]
  rw [hcount] at hlt
  rw [Cabac.encodeUeBypass, Nat.one_shiftLeft]
  simp only [hcode]
  have hpos : 1 ≤ 2 * (v + 2 ^ e).log2 + 1 - e := by omega
  generalize natOfBits (ueBins e v) = x at *
  generalize 2 * (v + 2 ^ e).log2 + 1 - e = k at *
  have hfirst : ((k - 1) &&& 7) + 1 = (k - 1) % 2 ^ 3 + 1 := by
    rw [show 7 = 2 ^ 3 - 1 from rfl, Nat.and_two_pow_sub_one_eq_mod]
  have hpow : 2 ^ k = 2 ^ ((k - 1) % 2 ^ 3 + 1) * 2 ^ (k - ((k - 1) % 2 ^ 3 + 1)) := by
    rw [← pow_add]
    congr 1
    omega
  have hbyte : (x >>> (k - ((k - 1) % 2 ^ 3 + 1))) &&& 0xff =
      x % 2 ^ k / 2 ^ (k - ((k - 1) % 2 ^ 3 + 1)) := by
    rw [show 0xff = 2 ^ 8 - 1 from rfl, Nat.and_two_pow_sub_one_eq_mod, Nat.mod_eq_of_lt hlt,
      Nat.shiftRight_eq_div_pow]
    apply Nat.mod_eq_of_lt
    rw [Nat.div_lt_iff_lt_mul (Nat.two_pow_pos _)]
    refine hlt.trans_le ?_
    rw [hpow]
    exact Nat.mul_le_mul_right _ (Nat.pow_le_pow_right (by omega) (by omega))
  have hloop := coding_ueBypassLoop k h (by omega) hok.range_lt (Nat.succ_pos _)
    (by omega) (by omega) le_rfl (by omega) hbyte
  rw [Nat.mod_eq_of_lt hlt] at hloop
  rw [hfirst]
  exact hloop

end Pc2Drc
