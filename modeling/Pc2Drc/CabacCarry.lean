import Pc2Drc.Cabac

/-! What the coder has written and what it holds back are one number, the low end of the interval.
A carry changes one written byte at most, and none before the start of the data. -/
namespace Pc2Drc

open Lib

variable {pre seg : List UInt8} {w : ℕ} {I : CodeInterval} {cb : Cabac}

/-- The bytes `seg` are written after `pre`, the bytes 0xff held back follow them, and then come `w`
bits of the register, of which the lowest 9 are those of the range. -/
structure Holding (pre seg : List UInt8) (w : ℕ) (I : CodeInterval) (cb : Cabac) : Prop where
  buf : cb.buf = pre ++ seg
  queue : cb.iQueue = w - 18
  bits : I.bits = 8 * (seg.length + cb.iBytesOutstanding) + w
  low : I.low =
    natOfBytes (seg ++ List.replicate cb.iBytesOutstanding 0xff) * 2 ^ w + cb.iLow
  last : ∀ c ∈ seg.getLast?, c ≠ 0xff
  carry : cb.iLow + I.range ≤ 3 * 2 ^ (w - 1)
  wide : 9 ≤ w

theorem modifyLast_add_zero (l : List UInt8) : l.modifyLast (· + 0) = l := by
  rcases List.eq_nil_or_concat l with rfl | ⟨l, c, rfl⟩
  · rfl
  · rw [List.concat_eq_append, List.modifyLast_concat, UInt8.add_zero]

/-- Without a carry the held back bytes are written as they are. -/
theorem writeOut_zero {out : ℕ} (hout : out < 2 ^ 8) : (cb.writeOut out).buf =
    cb.buf ++ List.replicate cb.iBytesOutstanding 0xff ++ [UInt8.ofNat out] := by
  have hcarry : out >>> 8 = 0 := by
    rw [Nat.shiftRight_eq_div_pow]
    omega
  simp only [Cabac.writeOut, hcarry]
  rw [show UInt8.ofNat 0 = 0 from rfl, modifyLast_add_zero]
  rfl

/-- A carry goes to the last written byte, and the held back bytes become zeros. -/
theorem writeOut_one {out : ℕ} (hout : out >>> 8 = 1) : (cb.writeOut out).buf =
    cb.buf.modifyLast (· + 1) ++ List.replicate cb.iBytesOutstanding 0 ++ [UInt8.ofNat out] := by
  simp only [Cabac.writeOut, hout]
  rfl

/-- The value of the written bytes grows by the carry. -/
theorem natOfBytes_carry {c : UInt8} (o : ℕ) (hc : c ≠ 0xff) :
    natOfBytes (seg ++ [c + 1] ++ List.replicate o 0) =
      natOfBytes (seg ++ [c] ++ List.replicate o 0xff) + 1 := by
  have hlt : c.toNat + 1 < 256 := by
    have h := UInt8.toNat_lt c
    have hne : c.toNat ≠ 255 := fun h => hc (UInt8.toNat_inj.mp h)
    omega
  have hsucc : (c + 1).toNat = c.toNat + 1 := by
    rw [UInt8.toNat_add]
    exact Nat.mod_eq_of_lt hlt
  have hff := natOfBytes_replicate_ff o
  rw [natOfBytes_append, natOfBytes_append _ (List.replicate o 0xff), natOfBytes_concat,
    natOfBytes_concat, natOfBytes_replicate_zero, hsucc, List.length_replicate,
    List.length_replicate, add_assoc _ (natOfBytes _) 1, hff]
  ring

namespace Cabac

@[simp] theorem putbyte_iRange (cb : Cabac) : cb.putbyte.iRange = cb.iRange := by
  simp only [putbyte, writeOut]
  split_ifs <;> rfl

@[simp] theorem putbyte_state (cb : Cabac) : cb.putbyte.state = cb.state := by
  simp only [putbyte, writeOut]
  split_ifs <;> rfl

@[simp] theorem putbyte_pStart (cb : Cabac) : cb.putbyte.pStart = cb.pStart := by
  simp only [putbyte, writeOut]
  split_ifs <;> rfl

/-- The byte that leaves the register, and what stays. -/
theorem putbyte_eq {v : ℕ} (hq : cb.iQueue = v - 10) (hv : 10 ≤ v) :
    cb.putbyte =
      let rest := { cb with iLow := cb.iLow % 2 ^ v, iQueue := (v : ℤ) - 18 }
      if cb.iLow / 2 ^ v % 2 ^ 8 = 255 then
        { rest with iBytesOutstanding := cb.iBytesOutstanding + 1 }
      else rest.writeOut (cb.iLow / 2 ^ v) := by
  have hq' : cb.iQueue.toNat = v - 10 := by omega
  have hmask : 0x400 <<< (v - 10) - 1 = 2 ^ v - 1 := by
    rw [Nat.shiftLeft_eq, show 0x400 = 2 ^ 10 from rfl, ← pow_add,
      show 10 + (v - 10) = v by omega]
  have hand (x : ℕ) : x &&& 0xff = x % 2 ^ 8 := Nat.and_two_pow_sub_one_eq_mod x 8
  simp only [putbyte, hq', hmask, hand]
  rw [if_pos (by omega), show v - 10 + 10 = v by omega, Nat.shiftRight_eq_div_pow,
    Nat.and_two_pow_sub_one_eq_mod, hq, show (v : ℤ) - 10 - 8 = v - 18 by omega]

end Cabac

namespace Holding

theorem putbyte_eq_self (h : Holding pre seg w I cb) (hw : w < 18) : cb.putbyte = cb := by
  rw [Cabac.putbyte, if_neg]
  rw [h.queue]
  omega

/-- New bits enter the register. -/
theorem shift {c : Cabac} {s x r : ℕ} (h : Holding pre seg w I cb)
    (hx : x + r ≤ I.range * 2 ^ s) (hbuf : c.buf = cb.buf)
    (hout : c.iBytesOutstanding = cb.iBytesOutstanding)
    (hlow : c.iLow = cb.iLow * 2 ^ s + x) (hqueue : c.iQueue = cb.iQueue + s) :
    Holding pre seg (w + s) ⟨I.low * 2 ^ s + x, r, I.bits + s⟩ c where
  buf := hbuf.trans h.buf
  queue := by rw [hqueue, h.queue]; push_cast; ring
  bits := by rw [hout, h.bits, add_assoc]
  low := by rw [hout, hlow, h.low, pow_add]; ring
  last := h.last
  carry := by
    have hw := h.wide
    have hmul : (cb.iLow + I.range) * 2 ^ s ≤ 3 * 2 ^ (w - 1) * 2 ^ s :=
      Nat.mul_le_mul_right _ h.carry
    rw [mul_assoc, ← pow_add, show w - 1 + s = w + s - 1 by omega, add_mul] at hmul
    simp only [hlow]
    omega
  wide := by have hw := h.wide; omega

/-- The bits above the register's byte and its carry. -/
theorem out_lt {v : ℕ} (h : Holding pre seg (v + 8) I cb) (hr : 0 < I.range) :
    cb.iLow / 2 ^ v < 384 := by
  have hcarry := h.carry
  rw [show v + 8 - 1 = v + 7 by omega, pow_add] at hcarry
  rw [Nat.div_lt_iff_lt_mul (Nat.two_pow_pos v)]
  omega

/-- A carry finds a byte to go to: the low end of the interval is below the top of the line. -/
theorem ne_nil_of_carry {v : ℕ} (h : Holding pre seg (v + 8) I cb) (hr : 0 < I.range)
    (htop : I.low + I.range ≤ 2 ^ I.bits) (hout : 256 ≤ cb.iLow / 2 ^ v) : seg ≠ [] := by
  rintro rfl
  have hff := natOfBytes_replicate_ff cb.iBytesOutstanding
  have hlow := h.low
  have hbits := h.bits
  rw [List.nil_append] at hlow
  simp only [List.length_nil, zero_add] at hbits
  rw [hbits, pow_add, ← hff, add_mul, one_mul, hlow] at htop
  have hle : 2 ^ (v + 8) ≤ cb.iLow := by
    rw [Nat.le_div_iff_mul_le (Nat.two_pow_pos v)] at hout
    rw [pow_add]
    omega
  omega

/-- The rest of the register after a byte has left it. -/
theorem rest_carry {v x : ℕ} (hv : 10 ≤ v) (hr : I.range ≤ 2 ^ 9) :
    x % 2 ^ v + I.range ≤ 3 * 2 ^ (v - 1) := by
  have hlt : x % 2 ^ v < 2 ^ v := Nat.mod_lt _ (Nat.two_pow_pos v)
  have hpow : 2 ^ v = 2 * 2 ^ (v - 1) := by
    rw [← pow_succ', show v - 1 + 1 = v by omega]
  have hle : 2 ^ 9 ≤ 2 ^ (v - 1) := Nat.pow_le_pow_right (by omega) (by omega)
  omega

/-- Writing a byte keeps the number. -/
theorem putbyte {v : ℕ} (h : Holding pre seg (v + 8) I cb) (hv : 10 ≤ v) (hr : 0 < I.range)
    (hr' : I.range ≤ 2 ^ 9) (htop : I.low + I.range ≤ 2 ^ I.bits) :
    (∃ seg', Holding pre seg' v I cb.putbyte) ∧ cb.putbyte.iLow < 2 ^ v := by
  have hout := h.out_lt hr
  have hne := h.ne_nil_of_carry hr htop
  have hlow : I.low =
      (natOfBytes (seg ++ List.replicate cb.iBytesOutstanding 0xff) * 2 ^ 8 + cb.iLow / 2 ^ v) *
        2 ^ v + cb.iLow % 2 ^ v := by
    rw [add_mul, add_assoc, Nat.div_add_mod', h.low, pow_add]
    ring
  have hq : cb.iQueue = v - 10 := by rw [h.queue]; push_cast; ring
  have hlt : cb.iLow % 2 ^ v < 2 ^ v := Nat.mod_lt _ (Nat.two_pow_pos v)
  rw [Cabac.putbyte_eq hq hv]
  generalize cb.iLow / 2 ^ v = out at *
  simp only
  split_ifs with hff
  · refine ⟨⟨seg, h.buf, rfl, ?_, ?_, h.last, rest_carry hv hr', by omega⟩, hlt⟩
    · rw [h.bits]
      ring
    · have hout255 : out = 255 := by omega
      rw [List.replicate_succ', ← List.append_assoc, natOfBytes_concat, hlow, hout255]
      rfl
  · refine ⟨?_, hlt⟩
    have hbyte : (UInt8.ofNat out).toNat = out % 2 ^ 8 := UInt8.toNat_ofNat' ..
    have hlast : UInt8.ofNat out ≠ 0xff := by
      intro heq
      rw [heq] at hbyte
      exact hff hbyte.symm
    by_cases hcarry : out < 2 ^ 8
    · refine ⟨seg ++ List.replicate cb.iBytesOutstanding 0xff ++ [UInt8.ofNat out], ?_, rfl, ?_, ?_,
        ?_, rest_carry hv hr', by omega⟩
      · rw [writeOut_zero hcarry]
        simp [h.buf]
      · rw [h.bits]
        simp [Cabac.writeOut]
        ring
      · simp only [Cabac.writeOut, List.replicate_zero, List.append_nil]
        rw [natOfBytes_concat, hbyte, Nat.mod_eq_of_lt hcarry, hlow]
      · simpa using hlast
    · obtain ⟨a, c, rfl⟩ : ∃ a c, seg = a ++ [c] := by
        rcases List.eq_nil_or_concat seg with rfl | ⟨a, c, rfl⟩
        · exact (hne (by omega) rfl).elim
        · exact ⟨a, c, List.concat_eq_append⟩
      have hc : c ≠ 0xff := h.last c (by simp)
      have hone : out >>> 8 = 1 := by
        rw [Nat.shiftRight_eq_div_pow]
        omega
      refine ⟨a ++ [c + 1] ++ List.replicate cb.iBytesOutstanding 0 ++ [UInt8.ofNat out], ?_, rfl,
        ?_, ?_, ?_, rest_carry hv hr', by omega⟩
      · rw [writeOut_one hone]
        simp only [h.buf]
        rw [← List.append_assoc, List.modifyLast_concat]
        simp
      · rw [h.bits]
        simp [Cabac.writeOut]
        ring
      · simp only [Cabac.writeOut, List.replicate_zero, List.append_nil]
        have hsum (n : ℕ) : (n + 1) * 2 ^ 8 + out % 2 ^ 8 = n * 2 ^ 8 + out := by omega
        rw [natOfBytes_concat, natOfBytes_carry _ hc, hbyte, hsum, hlow]
      · rw [List.getLast?_concat]
        simpa using hlast

end Holding

end Pc2Drc
