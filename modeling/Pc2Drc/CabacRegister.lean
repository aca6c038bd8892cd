import Mathlib.Data.List.GetD
import Pc2Drc.CabacStream

/-! The register of the coder is an `int` in the source: no assignment to it, inside a call or in
the flush, overflows. -/
namespace Pc2Drc

open Lib

namespace Cabac

/-- An assignment to `i_low`, where the source's `int` can hold the value. -/
def setLow (cb : Cabac) (v : ℕ) : Option Cabac :=
  if v < 2 ^ 31 then some { cb with iLow := v } else none

/-- `encodeRenorm` with its assignments to `i_low` checked; so are the functions below. -/
def encodeRenormInt (cb : Cabac) : Option Cabac := do
  let shift := renormShiftAt cb.iRange
  let cb ← setLow { cb with iRange := cb.iRange <<< shift } (cb.iLow <<< shift)
  return { cb with iQueue := cb.iQueue + shift }.putbyte

def encodeDecisionInt (cb : Cabac) (iCtx : Fin 1024) (b : Bool) : Option Cabac := do
  let iState := cb.state iCtx
  let iRangeLps := rangeLpsAt iState cb.iRange
  let iRange := cb.iRange - iRangeLps
  let cb ←
    if b.toNat ≠ iState &&& 1 then setLow { cb with iRange := iRangeLps } (cb.iLow + iRange)
    else some { cb with iRange := iRange }
  encodeRenormInt { cb with state := Function.update cb.state iCtx (transitionAt iState b) }

def encodeBypassInt (cb : Cabac) (b : Bool) : Option Cabac := do
  let cb ← cb.setLow (cb.iLow <<< 1)
  let cb ← cb.setLow (cb.iLow + if b then cb.iRange else 0)
  return { cb with iQueue := cb.iQueue + 1 }.putbyte

def encodeUeBypassLoopInt (x : ℕ) : ℕ → ℕ → ℕ → Cabac → Option Cabac
  | 0, _, _, cb => some cb
  | fuel + 1, k, i, cb => do
    let k := k - i
    let cb ← cb.setLow (cb.iLow <<< i)
    let cb ← cb.setLow (cb.iLow + ((x >>> k) &&& 0xff) * cb.iRange)
    let cb := putbyte { cb with iQueue := cb.iQueue + i }
    if 0 < k then encodeUeBypassLoopInt x fuel k 8 cb else some cb

def encodeUeBypassInt (cb : Cabac) (expBits val : ℕ) : Option Cabac :=
  let v := val + (1 <<< expBits)
  let k := v.log2
  let x := ((bypassLut.getD (k - expBits) 0 * 2 ^ expBits + v) % 2 ^ 32).toNat
  let k := 2 * k + 1 - expBits
  encodeUeBypassLoopInt x k k (((k - 1) &&& 7) + 1) cb

def encodeTerminalInt (cb : Cabac) : Option Cabac :=
  encodeRenormInt { cb with iRange := cb.iRange - 2 }

def encodeFlushInt (cb : Cabac) (iFrame : ℕ) : Option Cabac := do
  let cb ← cb.setLow (cb.iLow + (cb.iRange - 2))
  let cb ← cb.setLow (cb.iLow ||| 1)
  let cb ← cb.setLow (cb.iLow <<< 9)
  let cb := putbyte { cb with iQueue := cb.iQueue + 9 }
  let cb := cb.putbyte
  let cb ← cb.setLow (cb.iLow <<< (-cb.iQueue).toNat)
  let cb ← cb.setLow (cb.iLow ||| (flushBit iFrame <<< 10))
  let cb := putbyte { cb with iQueue := 0 }
  return { cb with
    buf := cb.buf ++ List.replicate cb.iBytesOutstanding 0xff
    iBytesOutstanding := 0 }

end Cabac

def CabacCall.runInt (cb : Cabac) : CabacCall → Option Cabac
  | decision c b => cb.encodeDecisionInt c b
  | bypass b => cb.encodeBypassInt b
  | ueBypass e v => cb.encodeUeBypassInt e v
  | terminal => cb.encodeTerminalInt

variable {pre : List UInt8} {I : CodeInterval} {cb : Cabac} {ctxCount : ℕ} {c : CabacCall}

/-- What is in the register between two calls fits its bits, and nine more bits fit an `int`. -/
theorem Coding.register (h : Coding pre I cb) : -9 ≤ cb.iQueue ∧ cb.iQueue ≤ -1 ∧
    cb.iLow + cb.iRange ≤ 3 * 2 ^ (cb.iQueue + 17).toNat ∧
    cb.iLow + cb.iRange < 2 ^ 22 ∧ ∃ seg, cb.buf = pre ++ seg := by
  obtain ⟨seg, w, hw, hold⟩ := h.holds
  have hrange := h.range
  have hqueue := hold.queue
  have hwide := hold.wide
  have hcarry := hold.carry
  have hpow : 2 ^ (w - 1) ≤ 2 ^ 16 := Nat.pow_le_pow_right (by omega) (by omega)
  have hbits : (cb.iQueue + 17).toNat = w - 1 := by omega
  rw [hbits]
  exact ⟨by omega, by omega, by omega, by omega, seg, hold.buf⟩

theorem setLow_eq {v : ℕ} (h : v < 2 ^ 31) : cb.setLow v = some { cb with iLow := v } := if_pos h

theorem renormShiftAt_le (x : ℕ) : renormShiftAt x ≤ 6 := by
  have htable : ∀ i : Fin 64, renormShift.getD i 0 ≤ 6 := by decide
  rcases Nat.lt_or_ge (x >>> 3) 64 with h | h
  · exact htable ⟨x >>> 3, h⟩
  · have hlen : renormShift.length ≤ x >>> 3 := h
    rw [renormShiftAt, List.getD_eq_default _ _ hlen]
    exact Nat.zero_le _

theorem encodeRenormInt_eq (h : cb.iLow < 2 ^ 22) :
    cb.encodeRenormInt = some cb.encodeRenorm := by
  have hshift : cb.iLow <<< renormShiftAt cb.iRange < 2 ^ 31 := by
    rw [Nat.shiftLeft_eq]
    have hle : 2 ^ renormShiftAt cb.iRange ≤ 2 ^ 6 :=
      Nat.pow_le_pow_right (by omega) (renormShiftAt_le _)
    have hmul : cb.iLow * 2 ^ renormShiftAt cb.iRange ≤ cb.iLow * 2 ^ 6 := Nat.mul_le_mul_left _ hle
    omega
  rw [Cabac.encodeRenormInt]
  simp only [setLow_eq hshift]
  rfl

theorem encodeDecisionInt_eq (h : cb.iLow + cb.iRange < 2 ^ 22) (iCtx : Fin 1024)
    (b : Bool) : cb.encodeDecisionInt iCtx b = some (cb.encodeDecision iCtx b) := by
  rw [Cabac.encodeDecisionInt, Cabac.encodeDecision]
  dsimp only
  have hle := Nat.sub_le cb.iRange (rangeLpsAt (cb.state iCtx) cb.iRange)
  split_ifs with hlps
  · rw [setLow_eq (by omega)]
    refine encodeRenormInt_eq ?_
    simp only
    omega
  · refine encodeRenormInt_eq ?_
    simp only
    omega

theorem encodeTerminalInt_eq (h : cb.iLow + cb.iRange < 2 ^ 22) :
    cb.encodeTerminalInt = some cb.encodeTerminal := by
  refine encodeRenormInt_eq ?_
  simp only
  omega

/-- One round of up to eight bits. -/
theorem setLow_bits {i d : ℕ} (h : cb.iLow + cb.iRange < 2 ^ 22) (hi : i ≤ 8)
    (hd : d < 2 ^ i) : cb.iLow <<< i < 2 ^ 31 ∧ cb.iLow <<< i + d * cb.iRange < 2 ^ 31 := by
  have hpow : 2 ^ i ≤ 2 ^ 8 := Nat.pow_le_pow_right (by omega) hi
  have hmul : (cb.iLow + cb.iRange) * 2 ^ i ≤ (cb.iLow + cb.iRange) * 2 ^ 8 :=
    Nat.mul_le_mul_left _ hpow
  have hdigit : d * cb.iRange ≤ 2 ^ i * cb.iRange := Nat.mul_le_mul_right _ hd.le
  rw [add_mul, mul_comm cb.iRange] at hmul
  rw [Nat.shiftLeft_eq]
  omega

theorem encodeBypassInt_eq (h : cb.iLow + cb.iRange < 2 ^ 22) (b : Bool) :
    cb.encodeBypassInt b = some (cb.encodeBypass b) := by
  obtain ⟨hshift, hsum⟩ := setLow_bits (i := 1) (d := b.toNat) h (by omega) (Bool.toNat_lt b)
  have heq : (if b then cb.iRange else 0) = b.toNat * cb.iRange := by cases b <;> simp
  rw [← heq] at hsum
  rw [Cabac.encodeBypassInt, setLow_eq hshift]
  simp only [Option.bind_eq_bind, Option.bind_some, setLow_eq hsum]
  rfl

/-- Each round finds the register with room for its bits, since the one before has left a state of
the coder. -/
theorem encodeUeBypassLoopInt_eq {x k i : ℕ} (fuel : ℕ) (h : Coding pre I cb) (hr : 0 < I.range)
    (hr' : I.range < 512) (hi : i ≤ 8) (hd : (x >>> (k - i)) &&& 0xff < 2 ^ i) :
    Cabac.encodeUeBypassLoopInt x fuel k i cb = some (Cabac.encodeUeBypassLoop x fuel k i cb) := by
  induction fuel generalizing k i I cb with
  | zero => rfl
  | succ fuel ih =>
    obtain ⟨-, -, -, hroom, -⟩ := h.register
    obtain ⟨hshift, hsum⟩ := setLow_bits hroom hi hd
    have hbits := h.bits hr hr' hi hd
    rw [Cabac.encodeUeBypassLoopInt, Cabac.encodeUeBypassLoop, setLow_eq hshift]
    simp only [Option.bind_eq_bind, Option.bind_some, setLow_eq hsum]
    split_ifs with hmore
    · exact ih hbits hr hr' le_rfl (Nat.and_lt_two_pow _ (by decide))
    · rfl

theorem encodeUeBypassInt_eq {e v : ℕ} (h : Coding pre I cb) (hr : 0 < I.range)
    (hr' : I.range < 512) (hlen : 2 * (v + 2 ^ e).log2 + 1 - e < 32) :
    cb.encodeUeBypassInt e v = some (cb.encodeUeBypass e v) := by
  obtain ⟨hen, hcount, -⟩ := ueBins_spec (k := e) (v := v) rfl
  have hcode := ueBypass_code (e := e) (v := v) rfl hlen
  have hlt := natOfBits_lt (ueBins e v)
  rw [hcount] at hlt
  rw [Cabac.encodeUeBypassInt, Cabac.encodeUeBypass, Nat.one_shiftLeft]
  simp only [hcode]
  have hpos : 1 ≤ 2 * (v + 2 ^ e).log2 + 1 - e := by omega
  generalize natOfBits (ueBins e v) = x at *
  generalize 2 * (v + 2 ^ e).log2 + 1 - e = k at *
  have hand : (k - 1) &&& 7 < 2 ^ 3 := Nat.and_lt_two_pow _ (by decide)
  have hle : (k - 1) &&& 7 ≤ k - 1 := Nat.and_le_left
  refine encodeUeBypassLoopInt_eq k h hr hr' (by omega) ?_
  refine lt_of_le_of_lt Nat.and_le_left ?_
  rw [Nat.shiftRight_eq_div_pow, Nat.div_lt_iff_lt_mul (Nat.two_pow_pos _), ← pow_add]
  rwa [Nat.add_sub_cancel' (by omega)]

theorem runInt_eq (h : Coding pre I cb) (hok : EngineOk ctxCount cb.state I.range)
    (hc : c.Allowed ctxCount) : c.runInt cb = some (c.run cb) := by
  obtain ⟨-, -, -, hroom, -⟩ := h.register
  have hr := hok.range_ge
  cases c with
  | decision i b => exact encodeDecisionInt_eq hroom i b
  | bypass b => exact encodeBypassInt_eq hroom b
  | ueBypass e v => exact encodeUeBypassInt_eq h (by omega) hok.range_lt hc
  | terminal => exact encodeTerminalInt_eq hroom

/-- The flush shifts by nine bits, and then by the rest of its last byte. -/
theorem encodeFlushInt_eq (h : Coding pre I cb) (hr : 2 ≤ I.range) (iFrame : ℕ) :
    cb.encodeFlushInt iFrame = some (cb.encodeFlush iFrame) := by
  obtain ⟨-, -, -, hroom, -⟩ := h.register
  have hrange := h.range
  have hor := or_one_eq (cb.iLow + (cb.iRange - 2))
  have hsum : cb.iLow + (cb.iRange - 2) < 2 ^ 31 := by omega
  have hone : cb.iLow + (cb.iRange - 2) ||| 1 < 2 ^ 31 := by omega
  have hshift : (cb.iLow + (cb.iRange - 2) ||| 1) <<< 9 < 2 ^ 31 := by
    rw [Nat.shiftLeft_eq]
    omega
  obtain ⟨seg, v, hv, hv', hold, hlt⟩ := flush_register h hr rfl
  rw [Cabac.encodeFlushInt, Cabac.encodeFlush, setLow_eq hsum]
  simp only [Option.bind_eq_bind, Option.bind_some, setLow_eq hone, setLow_eq hshift]
  generalize Cabac.putbyte (Cabac.putbyte { cb with
      iLow := ((cb.iLow + (cb.iRange - 2)) ||| 1) <<< 9
      iQueue := cb.iQueue + 9 }) = cb' at *
  have hqueue : (-cb'.iQueue).toNat = 18 - v := by
    rw [hold.queue]
    omega
  have hlow : cb'.iLow <<< (-cb'.iQueue).toNat < 2 ^ 18 := by
    rw [hqueue, Nat.shiftLeft_eq]
    calc cb'.iLow * 2 ^ (18 - v) < 2 ^ v * 2 ^ (18 - v) :=
          Nat.mul_lt_mul_of_pos_right hlt (Nat.two_pow_pos _)
      _ = 2 ^ 18 := by rw [← pow_add, Nat.add_sub_cancel' (by omega)]
  have hbit : Cabac.flushBit iFrame <<< 10 < 2 ^ 18 := by
    rw [Nat.shiftLeft_eq]
    rcases flushBit_cases iFrame with hbit | hbit <;> rw [hbit] <;> decide
  have hlast := Nat.or_lt_two_pow hlow hbit
  rw [setLow_eq (hlow.trans (by decide))]
  simp only [Option.bind_some, setLow_eq (hlast.trans (by decide))]
  rfl

/-- In every state that calls lead to, the tables are read inside their bounds, the register holds
no more than its bits, no assignment to `i_low` in a further call or in the flush overflows, and the
bytes before the data are untouched. -/
theorem cabac_reachable_bounds (cb : Cabac) (table : Fin 1024 → ℤ × ℤ) (ctxCount iQp : ℕ)
    (bs : List UInt8) (calls : List CabacCall) (hcalls : ∀ c ∈ calls, c.Allowed ctxCount) :
    let s := calls.foldl CabacCall.run ((cb.contextInit table ctxCount iQp).encodeInit bs)
    256 ≤ s.iRange ∧ s.iRange < 512 ∧
      (∀ c : Fin 1024, c < ctxCount → 2 ≤ s.state c ∧ s.state c < 128) ∧
      -9 ≤ s.iQueue ∧ s.iQueue ≤ -1 ∧
      s.iLow + s.iRange ≤ 3 * 2 ^ (s.iQueue + 17).toNat ∧
      (s.iLow + s.iRange) * 2 ^ 9 < 2 ^ 31 ∧
      (∀ c : CabacCall, c.Allowed ctxCount → c.runInt s = some (c.run s)) ∧
      (∀ iFrame, s.encodeFlushInt iFrame = some (s.encodeFlush iFrame)) ∧
      ∃ seg, s.buf = bs ++ seg := by
  intro s
  have hok : EngineOk ctxCount ((cb.contextInit table ctxCount iQp).encodeInit bs).state
    cabacStart.range := engineOk_contextInit cb table ctxCount iQp
  obtain ⟨hcoding, hstate⟩ :=
    coding_calls (coding_encodeInit (cb.contextInit table ctxCount iQp) bs) hok hcalls
  have hok' := ((engine_invariant ctxCount).encode hok (binAllowed_of_mem_binsOf hcalls)).1
  rw [← hstate] at hok'
  have hrange : s.iRange = _ := hcoding.range
  obtain ⟨hqueue, hqueue', hfull, hroom, hbuf⟩ := hcoding.register
  have hnine : (s.iLow + s.iRange) * 2 ^ 9 < 2 ^ 22 * 2 ^ 9 :=
    Nat.mul_lt_mul_of_pos_right hroom (Nat.two_pow_pos 9)
  exact ⟨hrange ▸ hok'.range_ge, hrange ▸ hok'.range_lt,
    fun c hc => ⟨hok'.two_le c hc, hok'.lt c hc⟩, hqueue, hqueue', hfull, hnine,
    fun c hc => runInt_eq hcoding hok' hc,
    encodeFlushInt_eq hcoding (le_trans (by decide) hok'.range_ge), hbuf⟩

/-- After one symbol: a code of several rounds and the flush. -/
theorem cabac_reachable_bounds_call :
    let start := (Cabac.fresh.contextInit (fun _ => (0, 64)) 460 32).encodeInit [0x65]
    let s := start.encodeDecision 3 true
    s.iRange < 512 ∧ s.encodeUeBypassInt 0 300 = some (s.encodeUeBypass 0 300) ∧
      s.encodeFlushInt 7 = some (s.encodeFlush 7) := by
  obtain ⟨-, hrange, -, -, -, -, -, hcall, hflush, -⟩ := cabac_reachable_bounds Cabac.fresh
    (fun _ => (0, 64)) 460 32 [0x65] [.decision 3 true] (by decide)
  exact ⟨hrange, hcall (.ueBypass 0 300) (by decide), hflush 7⟩

end Pc2Drc
