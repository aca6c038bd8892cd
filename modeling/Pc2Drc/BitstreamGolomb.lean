import Pc2Drc.Bitstream

/-! The Golomb codes of the bit writer, and what any sequence of its calls puts into the stream. -/
namespace Pc2Drc
open Lib

variable {w w' : WordSize} {s : Bs} {n v x : ℕ} {z : ℤ}

theorem log2_eq (hv : v ≠ 0) (hlow : 2 ^ n ≤ v) (hhigh : v < 2 ^ (n + 1)) : v.log2 = n :=
  (Nat.log2_eq_iff hv).mpr ⟨hlow, hhigh⟩

theorem log2_shiftRight (h : 2 ^ n ≤ v) : v.log2 = (v >>> n).log2 + n := by
  have hpos : v >>> n ≠ 0 := by
    rw [Nat.shiftRight_eq_div_pow]
    exact (Nat.div_pos h (Nat.two_pow_pos n)).ne'
  have hlow := Nat.log2_self_le hpos
  have hhigh := Nat.lt_log2_self (n := v >>> n)
  rw [Nat.shiftRight_eq_div_pow] at hlow hhigh ⊢
  apply log2_eq
  · have := Nat.two_pow_pos n
    omega
  · rw [pow_add]
    exact (Nat.le_div_iff_mul_le (Nat.two_pow_pos n)).mp hlow
  · rw [show (v / 2 ^ n).log2 + n + 1 = (v / 2 ^ n).log2 + 1 + n by omega, pow_add]
    exact (Nat.div_lt_iff_lt_mul (Nat.two_pow_pos n)).mp hhigh

theorem log2_lt (hv : v ≠ 0) (h : v < 2 ^ n) : v.log2 < n := (Nat.log2_lt hv).mpr h

/-- The table holds the lengths of the codes. -/
theorem ueSize_eq (hv : v ≠ 0) (h : v < 256) : ueSize v = 2 * v.log2 + 1 := by
  have hall : ∀ k : Fin 256, k.val ≠ 0 → ueSize k.val = 2 * k.val.log2 + 1 := by
    decide +kernel
  exact hall ⟨v, h⟩ hv

theorem ueSize_shiftRight (hlow : 256 ≤ v) (h : v < 2 ^ 16) :
    ueSize (v >>> 8) + 16 = 2 * v.log2 + 1 := by
  have hne : v >>> 8 ≠ 0 := by
    rw [Nat.shiftRight_eq_div_pow]
    omega
  have hlt : v >>> 8 < 256 := by
    rw [Nat.shiftRight_eq_div_pow]
    omega
  rw [ueSize_eq hne hlt, log2_shiftRight (n := 8) hlow]
  omega

theorem writeUe_code (h : s.Ok w) (hv : v < 255) :
    (s.writeUe w v).Ok w ∧ (s.writeUe w v).bits w = s.bits w ++ ueBits v := by
  have hsize := ueSize_eq (Nat.succ_ne_zero v) (by omega)
  have hlog := log2_lt (n := 8) (Nat.succ_ne_zero v) (by omega)
  have hlt : v + 1 < 2 ^ (2 * (v + 1).log2 + 1) :=
    lt_of_lt_of_le Nat.lt_log2_self (Nat.pow_le_pow_right Nat.two_pos (by omega))
  rw [Bs.writeUe, hsize, ueBits_eq_bitsOfNat]
  exact h.write_lt hlt (by omega)

/-- The test for a second byte finds the length of a code of up to 31 bits. -/
theorem ueSize_test (hv : v ≠ 0) (h : v < 2 ^ 16) :
    (if v ≥ 0x100 then 16 + ueSize (v >>> 8) else ueSize v) = 2 * v.log2 + 1 := by
  split
  · rename_i hge
    rw [add_comm, ueSize_shiftRight hge h]
  · exact ueSize_eq hv (by omega)

theorem ueBigSize_eq (hv : v ≠ 0) (h : v < 2 ^ 31) : Bs.ueBigSize v = 2 * v.log2 + 1 := by
  unfold Bs.ueBigSize
  by_cases hge : v ≥ 0x10000
  · have hne : v >>> 16 ≠ 0 := by
      rw [Nat.shiftRight_eq_div_pow]
      omega
    have hlt : v >>> 16 < 2 ^ 16 := by
      rw [Nat.shiftRight_eq_div_pow]
      omega
    have hsum := ueSize_test hne hlt
    have hlog := log2_shiftRight (n := 16) hge
    simp only [if_pos hge]
    split at hsum
    · rename_i h2
      rw [if_pos h2]
      omega
    · rename_i h2
      rw [if_neg h2]
      omega
  · have hsum := ueSize_test hv (by omega)
    simp only [if_neg hge, zero_add]
    exact hsum

theorem writeUeBig_code (h : s.Ok w) (hv : v + 1 < 2 ^ 31) :
    (s.writeUeBig w v).Ok w ∧ (s.writeUeBig w v).bits w = s.bits w ++ ueBits v := by
  have hsize : Bs.ueBigSize (v + 1) >>> 1 = (v + 1).log2 := by
    rw [ueBigSize_eq (v := v + 1) (Nat.succ_ne_zero v) hv, Nat.shiftRight_eq_div_pow]
    omega
  have hlog : (v + 1).log2 < 31 := log2_lt (Nat.succ_ne_zero v) hv
  obtain ⟨h₁, hb₁⟩ := h.write_lt (Nat.two_pow_pos _ : 0 < 2 ^ (v + 1).log2) (by omega)
  obtain ⟨h₂, hb₂⟩ := h₁.write_lt
    (Nat.lt_log2_self : v + 1 < 2 ^ ((v + 1).log2 + 1)) (by omega)
  rw [Bs.writeUeBig]
  simp only [hsize]
  refine ⟨h₂, ?_⟩
  rw [hb₂, hb₁, bitsOfNat_zero, List.append_assoc, ueBits]

theorem seTmp_eq (z : ℤ) : Bs.seTmp z = seCode z + 1 := by
  unfold Bs.seTmp seCode
  split_ifs <;> omega

theorem writeSe_code (h : s.Ok w) (hz : Bs.seTmp z < 2 ^ 16) :
    (s.writeSe w z).Ok w ∧ (s.writeSe w z).bits w = s.bits w ++ seBits z := by
  have hcode := seTmp_eq z
  have hne : Bs.seTmp z ≠ 0 := by omega
  have hlog := log2_lt hne hz
  have hlt : Bs.seTmp z < 2 ^ (2 * (Bs.seTmp z).log2 + 1) :=
    lt_of_lt_of_le Nat.lt_log2_self (Nat.pow_le_pow_right Nat.two_pos (by omega))
  rw [Bs.writeSe, seBits, ueBits_eq_bitsOfNat, ← hcode]
  simp only [ueSize_test hne hz]
  exact h.write_lt hlt (by omega)

theorem writeTe_code (h : s.Ok w) (hx : x = 1 → v ≤ 1) (hv : v < 255) :
    (s.writeTe w x v).Ok w ∧ (s.writeTe w x v).bits w = s.bits w ++ teBits x v := by
  unfold Bs.writeTe teBits
  by_cases hx1 : x = 1
  · rw [if_pos hx1, if_pos hx1]
    obtain rfl | rfl : v = 0 ∨ v = 1 := by
      have := hx hx1
      omega
    · exact h.write1 (by decide)
    · exact h.write1 (by decide)
  · rw [if_neg hx1, if_neg hx1]
    exact writeUe_code h hv

/-- A call of the bit writer. `bs_realign` is made where `bs_flush` has been. -/
inductive BsCall
  | write (count v : ℕ)
  | write32 (v : ℕ)
  | write1 (v : ℕ)
  | align0
  | align1
  | align10
  | ueBig (v : ℕ)
  | ue (v : ℕ)
  | se (z : ℤ)
  | te (x v : ℕ)
  | rbspTrailing
  | flush
  | flushRealign
  deriving DecidableEq, Repr

namespace BsCall

def run (w : WordSize) (s : Bs) : BsCall → Bs
  | write count v => s.write w count v
  | write32 v => s.write32 w v
  | write1 v => s.write1 w v
  | align0 => s.align0 w
  | align1 => s.align1 w
  | align10 => s.align10 w
  | ueBig v => s.writeUeBig w v
  | ue v => s.writeUe w v
  | se z => s.writeSe w z
  | te x v => s.writeTe w x v
  | rbspTrailing => s.rbspTrailing w
  | flush => s.flush w
  | flushRealign => (s.flush w).realign w

/-- What the call is meant to put behind `n` bits. -/
def code (n : ℕ) : BsCall → List Bool
  | write count v => bitsOfNat count v
  | write32 v => bitsOfNat 32 v
  | write1 v => bitsOfNat 1 v
  | align0 => List.replicate (padding n) false
  | align1 => List.replicate (padding n) true
  | align10 => (true :: List.replicate 7 false).take (padding n)
  | ueBig v => ueBits v
  | ue v => ueBits v
  | se z => seBits z
  | te x v => teBits x v
  | rbspTrailing => true :: List.replicate (padding (n + 1)) false
  | flush => List.replicate (padding n) false
  | flushRealign => List.replicate (padding n) false

/-- What a caller owes: numbers that fit their bits, and codes of at most 31 bits. -/
def InRange : BsCall → Prop
  | write count v => count ≤ 31 ∧ v < 2 ^ count
  | write32 v => v < 2 ^ 32
  | write1 v => v < 2
  | ueBig v => v + 1 < 2 ^ 31
  | ue v => v < 255
  | se z => Bs.seTmp z < 2 ^ 16
  | te x v => (x = 1 → v ≤ 1) ∧ v < 255
  | _ => True

end BsCall

variable {c : BsCall} {calls : List BsCall}

/-- One call. -/
theorem run_code (h : s.Ok w) (hc : c.InRange) :
    (c.run w s).Ok w ∧ (c.run w s).bits w = s.bits w ++ c.code (s.bits w).length := by
  cases c with
  | write count v => exact h.write_lt hc.2 hc.1
  | write32 v => exact h.write32 hc
  | write1 v => exact h.write1 hc
  | align0 => exact h.align0
  | align1 => exact h.align1
  | align10 => exact h.align10
  | ueBig v => exact writeUeBig_code h hc
  | ue v => exact writeUe_code h hc
  | se z => exact writeSe_code h hc
  | te x v => exact writeTe_code h hc.1 hc.2
  | rbspTrailing => exact h.rbspTrailing
  | flush => exact ⟨h.flush.1, h.flush_bits⟩
  | flushRealign =>
    obtain ⟨hok, hbits⟩ := Bs.realign_ok (w := w) (s := s.flush w) rfl
    exact ⟨hok, hbits.trans h.flush.2⟩

/-- The stream after the calls. -/
def codeAll (b : List Bool) (calls : List BsCall) : List Bool :=
  calls.foldl (fun b c => b ++ c.code b.length) b

theorem foldl_run_code (h : s.Ok w) (hc : ∀ c ∈ calls, c.InRange) :
    (calls.foldl (BsCall.run w) s).Ok w ∧
      (calls.foldl (BsCall.run w) s).bits w = codeAll (s.bits w) calls := by
  induction calls generalizing s with
  | nil => exact ⟨h, rfl⟩
  | cons c calls ih =>
    obtain ⟨h₁, hb₁⟩ := run_code h (hc c List.mem_cons_self)
    rw [List.foldl_cons, codeAll, List.foldl_cons, ← hb₁]
    exact ih h₁ fun c' hc' => hc c' (List.mem_cons_of_mem _ hc')

/-- The bytes of a stream that is begun behind `before`, after the calls and a flush. -/
def bsBytes (w : WordSize) (before : List UInt8) (calls : List BsCall) : List UInt8 :=
  ((calls.foldl (BsCall.run w) (Bs.init w before)).flush w).out

theorem bitsOfBytes_bsBytes {before : List UInt8} (hb : before.length < 4)
    (hc : ∀ c ∈ calls, c.InRange) :
    bitsOfBytes (bsBytes w before calls) = codeAll (bitsOfBytes before) calls ++
      List.replicate (padding (codeAll (bitsOfBytes before) calls).length) false := by
  obtain ⟨h, hbits⟩ := Bs.init_ok (w := w) hb
  obtain ⟨h', hbits'⟩ := foldl_run_code h hc
  rw [bsBytes, h'.flush.2, hbits', hbits]

theorem Bs.Ok.pos_eq (h : s.Ok w) : s.pos w = (s.bits w).length := by
  obtain ⟨hlow, hhigh⟩ := h
  rw [Bs.pos, Bs.length_bits, Bs.pending]
  omega

/-- The stream is the codes of the calls one behind the other, in whatever state the calls find the
word, which never holds more than it can; the code for 32 bits and that for 64 give the same
bytes. -/
theorem bs_bytes_of_calls {before : List UInt8} (hb : before.length < 4)
    (hc : ∀ c ∈ calls, c.InRange) (w : WordSize) :
    bitsOfBytes (bsBytes w before calls) = codeAll (bitsOfBytes before) calls ++
        List.replicate (padding (codeAll (bitsOfBytes before) calls).length) false ∧
      bsBytes w before calls = bsBytes .eight before calls ∧
      ∀ n, let s := (calls.take n).foldl (BsCall.run w) (Bs.init w before)
        w.bytes * 8 - 32 < s.left ∧ s.left ≤ w.bytes * 8 ∧
          s.pos w = (codeAll (bitsOfBytes before) (calls.take n)).length := by
  refine ⟨bitsOfBytes_bsBytes hb hc, ?_, ?_⟩
  · apply bitsOfBytes_injective
    rw [bitsOfBytes_bsBytes hb hc, bitsOfBytes_bsBytes hb hc]
  · intro n
    obtain ⟨h, hbits⟩ := Bs.init_ok (w := w) hb
    obtain ⟨h', hbits'⟩ := foldl_run_code h fun c hcn => hc c (List.mem_of_mem_take hcn)
    have hlow := h'.low
    have hw := w.bytes_eq
    exact ⟨by omega, h'.high, by rw [h'.pos_eq, hbits', hbits]⟩

/-- A slice header's kind of calls, from an address that four does not divide. -/
theorem bs_bytes_of_calls_sample :
    bsBytes .four [1, 2, 3] [.ueBig 70000, .write32 0xdeadbeef, .se (-300), .rbspTrailing] =
      bsBytes .eight [1, 2, 3] [.ueBig 70000, .write32 0xdeadbeef, .se (-300), .rbspTrailing] := by
  refine (bs_bytes_of_calls (by decide) ?_ .four).2.1
  intro c hc
  simp only [List.mem_cons, List.not_mem_nil, or_false] at hc
  rcases hc with rfl | rfl | rfl | rfl
  · exact (by decide : 70000 + 1 < 2 ^ 31)
  · exact (by decide : 0xdeadbeef < 2 ^ 32)
  · exact (by decide : Bs.seTmp (-300) < 2 ^ 16)
  · trivial

end Pc2Drc
