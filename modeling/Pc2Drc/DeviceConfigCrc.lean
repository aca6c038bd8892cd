import Pc2Drc.DeviceConfig
import Pc2Drc.Lib.ShiftRegister

/-! The checksum of a configuration group as a feedback shift register over the bits of the group
and of the stored value: any change confined to one register width is noticed. -/
namespace Pc2Drc

open Lib

/-- Bit `i` of the bytes from `p` on, bytes in order and the lowest bit of each first. -/
def bitAt (blob : List UInt8) (p i : ℕ) : Bool :=
  (byteAt blob (p + i / 8)).toBitVec.getLsbD (i % 8)

/-- `0x8408` as the mask of the register. -/
def crcMask : BitVec 16 := 0x8408

theorem crcMask_top : crcMask.getLsbD (16 - 1) = true := by decide

theorem toBitVec_crcBit (crc : UInt16) :
    (crcBit crc).toBitVec = ShiftRegister.shift crcMask crc.toBitVec := by
  have hlow : crc &&& 1 = 1 ↔ crc.toBitVec.getLsbD 0 = true := by
    rw [← UInt16.toBitVec_inj, UInt16.toBitVec_and]
    change crc.toBitVec &&& 1#16 = 1#16 ↔ _
    rw [BitVec.and_one_eq_setWidth_ofBool_getLsbD]
    cases crc.toBitVec.getLsbD 0 <;> simp
  rw [crcBit, ShiftRegister.shift]
  by_cases h : crc &&& 1 = 1
  · rw [if_pos h, if_pos (hlow.mp h)]
    rfl
  · rw [if_neg h, if_neg (fun hb => h (hlow.mpr hb))]
    rfl

theorem toBitVec_iterate_crcBit (n : ℕ) (crc : UInt16) :
    (crcBit^[n] crc).toBitVec = (ShiftRegister.shift crcMask)^[n] crc.toBitVec := by
  induction n generalizing crc with
  | zero => rfl
  | succ n ih => rw [Function.iterate_succ_apply, ih, toBitVec_crcBit, Function.iterate_succ_apply]

/-- A byte is the word of its eight bits. -/
theorem wordOf_byte (blob : List UInt8) (p n : ℕ) :
    ShiftRegister.wordOf (fun i => bitAt blob p (8 * n + i)) 8 =
      (byteAt blob (p + n)).toUInt16.toBitVec := by
  apply BitVec.eq_of_getLsbD_eq
  intro i hi
  rw [ShiftRegister.getLsbD_wordOf hi]
  change _ = ((byteAt blob (p + n)).toBitVec.setWidth 16).getLsbD i
  rw [BitVec.getLsbD_setWidth]
  by_cases h8 : i < 8
  · have hdiv : (8 * n + i) / 8 = n := by omega
    have hmod : (8 * n + i) % 8 = i := by omega
    simp [bitAt, h8, hi, hdiv, hmod]
  · rw [BitVec.getLsbD_of_ge _ _ (by omega)]
    simp [h8]

theorem bytesAt_succ (blob : List UInt8) (p n : ℕ) :
    bytesAt blob p (n + 1) = bytesAt blob p n ++ [byteAt blob (p + n)] := by
  simp [bytesAt, List.range_succ]

/-- The two nested loops are one run over the bits. -/
theorem toBitVec_crc16 (blob : List UInt8) (p n : ℕ) :
    (crc16 blob p n).toBitVec = ShiftRegister.run crcMask 0xffff (bitAt blob p) (8 * n) := by
  induction n with
  | zero => rfl
  | succ n ih =>
    rw [Nat.mul_succ, ShiftRegister.run_add, ShiftRegister.run_eq_iterate crcMask (by omega),
      wordOf_byte, ← ih, crc16, bytesAt_succ, List.foldl_append]
    change (crcBit^[8] (crc16 blob p n ^^^ _)).toBitVec = _
    rw [toBitVec_iterate_crcBit, UInt16.toBitVec_xor]

/-- The stored value is the word of the sixteen bits behind the data. -/
theorem wordOf_getCRC (blob : List UInt8) (p n : ℕ) :
    ShiftRegister.wordOf (fun i => bitAt blob p (8 * n + i)) 16 =
      (getCRC blob (p + n)).toBitVec := by
  apply BitVec.eq_of_getLsbD_eq
  intro i hi
  rw [ShiftRegister.getLsbD_wordOf hi, getCRC, u16OfBytes, UInt16.toBitVec_or,
    BitVec.getLsbD_or]
  change _ = (((byteAt blob (p + n + 1)).toBitVec.setWidth 16 <<< 8).getLsbD i ||
    ((byteAt blob (p + n)).toBitVec.setWidth 16).getLsbD i)
  rw [BitVec.getLsbD_shiftLeft, BitVec.getLsbD_setWidth, BitVec.getLsbD_setWidth]
  by_cases h8 : i < 8
  · have hdiv : (8 * n + i) / 8 = n := by omega
    have hmod : (8 * n + i) % 8 = i := by omega
    simp [bitAt, h8, hi, hdiv, hmod]
  · have hdiv : (8 * n + i) / 8 = n + 1 := by omega
    have hmod : (8 * n + i) % 8 = i - 8 := by omega
    have hsub : i - 8 < 16 := by omega
    have hlow : (byteAt blob (p + n)).toBitVec.getLsbD i = false :=
      BitVec.getLsbD_of_ge _ _ (by omega)
    simp [bitAt, h8, hi, hdiv, hmod, hsub, hlow, Nat.add_assoc]

/-- The stored value cancels the remainder of the data exactly when they are equal. -/
theorem checkCRC16_iff_crc16 (blob : List UInt8) (p n : ℕ) :
    checkCRC16 blob p n = true ↔ crc16 blob p (n + 2) = 0 := by
  have hrun : (crc16 blob p (n + 2)).toBitVec = (ShiftRegister.shift crcMask)^[16]
      ((crc16 blob p n).toBitVec ^^^ (getCRC blob (p + n)).toBitVec) := by
    rw [toBitVec_crc16, show 8 * (n + 2) = 8 * n + 16 by omega, ShiftRegister.run_add,
      ShiftRegister.run_eq_iterate crcMask (le_refl 16), wordOf_getCRC, toBitVec_crc16]
  rw [← UInt16.toBitVec_inj, hrun]
  change _ ↔ _ = (0 : BitVec 16)
  rw [ShiftRegister.iterate_shift_eq_zero crcMask_top, checkCRC16, beq_iff_eq,
    ← UInt16.toBitVec_inj]
  constructor
  · intro h
    rw [h, BitVec.xor_self]
    rfl
  · intro h
    exact (BitVec.xor_eq_zero_iff.mp h).symm

/-- Strings of one length that agree bit by bit are equal. -/
theorem eq_of_bitAt_eq {d d' : List UInt8} (hlen : d.length = d'.length)
    (h : ∀ i < 8 * d.length, bitAt d 0 i = bitAt d' 0 i) : d = d' := by
  apply List.ext_getElem hlen
  intro k hk hk'
  apply UInt8.toBitVec_inj.mp
  apply BitVec.eq_of_getLsbD_eq
  intro j hj
  have hbit := h (8 * k + j) (by omega)
  have hdiv : (8 * k + j) / 8 = k := by omega
  have hmod : (8 * k + j) % 8 = j := by omega
  simpa [bitAt, byteAt, hdiv, hmod, hk, hk'] using hbit

/-- The remainders of two strings differ by that of their difference, from a cleared register. -/
theorem crc16_xor (d d' : List UInt8) (p n : ℕ) :
    (crc16 d p n ^^^ crc16 d' p n).toBitVec =
      ShiftRegister.run crcMask 0 (fun i => bitAt d p i ^^ bitAt d' p i) (8 * n) := by
  rw [UInt16.toBitVec_xor, toBitVec_crc16, toBitVec_crc16, ShiftRegister.run_xor, BitVec.xor_self]
  rfl

theorem crc16_ne_of_burst {d d' : List UInt8} {p : ℕ} (hlen : d.length = d'.length) (hne : d ≠ d')
    (hburst : ∀ i, bitAt d 0 i ≠ bitAt d' 0 i → p ≤ i ∧ i < p + 16) :
    crc16 d 0 d.length ≠ crc16 d' 0 d.length := by
  intro heq
  have hsame : ∃ i < 8 * d.length, bitAt d 0 i ≠ bitAt d' 0 i := by
    by_contra hall
    push Not at hall
    exact hne (eq_of_bitAt_eq hlen hall)
  obtain ⟨i, hi, hbit⟩ := hsame
  have hrun := crc16_xor d d' 0 d.length
  rw [heq, UInt16.xor_self] at hrun
  refine ShiftRegister.run_burst_ne_zero (p := p) crcMask_top hi (by simpa using hbit) ?_ hrun.symm
  intro j _ hj
  exact hburst j (by simpa using hj)

theorem checkCRC16_detects_burst (n : ℕ) (d : List UInt8) (hd : d.length = n + 2) :
    (checkCRC16 d 0 n = true ↔ crc16 d 0 (n + 2) = 0) ∧
    ∀ d' : List UInt8, d'.length = n + 2 → d ≠ d' →
      (∃ p, ∀ i, bitAt d 0 i ≠ bitAt d' 0 i → p ≤ i ∧ i < p + 16) →
      ¬ (checkCRC16 d 0 n = true ∧ checkCRC16 d' 0 n = true) := by
  refine ⟨checkCRC16_iff_crc16 d 0 n, ?_⟩
  rintro d' hd' hne ⟨p, hburst⟩ ⟨hpass, hpass'⟩
  rw [checkCRC16_iff_crc16] at hpass hpass'
  apply crc16_ne_of_burst (hd.trans hd'.symm) hne hburst
  rw [hd, hpass, hpass']

/-- A group that passes, its last data byte and the first byte of its checksum changed. -/
theorem checkCRC16_detects_burst_at_boundary :
    checkCRC16 [0x12, 0x34, 0x3e, 0x21] 0 2 = true ∧
      ¬ checkCRC16 [0x12, 0xcb, 0xc1, 0x21] 0 2 = true := by
  have hpass : checkCRC16 [0x12, 0x34, 0x3e, 0x21] 0 2 = true := by decide +kernel
  refine ⟨hpass, fun hpass' => ?_⟩
  refine (checkCRC16_detects_burst 2 [0x12, 0x34, 0x3e, 0x21] rfl).2 [0x12, 0xcb, 0xc1, 0x21] rfl
    (by decide) ⟨8, ?_⟩ ⟨hpass, hpass'⟩
  intro i hi
  by_contra hout
  apply hi
  rcases Nat.lt_or_ge i 8 with hlow | hhigh
  · simp [bitAt, byteAt, Nat.div_eq_of_lt hlow]
  · obtain ⟨k, hk⟩ : ∃ k, i / 8 = k + 3 := ⟨i / 8 - 3, by omega⟩
    simp [bitAt, byteAt, hk]

end Pc2Drc
