import Mathlib.Data.Nat.Log
import Pc2Drc.Lib.Bits

/-! Exponential Golomb codes of order 0: unsigned, signed and truncated. -/
namespace Pc2Drc.Lib

variable {n v : ℕ} {z : ℤ} {rest : List Bool}

/-- As many zeros as the number has bits after its first, then the number, one higher. -/
def ueBits (v : ℕ) : List Bool :=
  List.replicate (v + 1).log2 false ++ bitsOfNat ((v + 1).log2 + 1) (v + 1)

/-- The place of a signed number in the order 0, 1, -1, 2, -2, … -/
def seCode (z : ℤ) : ℕ := if z ≤ 0 then (-2 * z).toNat else (2 * z - 1).toNat

def seBits (z : ℤ) : List Bool := ueBits (seCode z)

/-- The code of a number up to `x`. -/
def teBits (x v : ℕ) : List Bool := if x = 1 then [!(v.testBit 0)] else ueBits v

def leadingZeros : List Bool → Option (ℕ × List Bool)
  | [] => none
  | true :: l => some (0, l)
  | false :: l => (leadingZeros l).map fun r => (r.1 + 1, r.2)

def readUe (l : List Bool) : Option (ℕ × List Bool) := do
  let (n, l) ← leadingZeros l
  let (v, l) ← readBits n l
  return (2 ^ n + v - 1, l)

def seValue (k : ℕ) : ℤ := if k % 2 = 1 then (k + 1) / 2 else -(k / 2)

def readSe (l : List Bool) : Option (ℤ × List Bool) :=
  (readUe l).map fun r => (seValue r.1, r.2)

def readTe (x : ℕ) (l : List Bool) : Option (ℕ × List Bool) :=
  if x = 1 then (readBits 1 l).map fun r => (1 - r.1, r.2) else readUe l

theorem leadingZeros_replicate (n : ℕ) (rest : List Bool) :
    leadingZeros (List.replicate n false ++ true :: rest) = some (n, rest) := by
  induction n with
  | zero => rfl
  | succ n ih =>
    rw [List.replicate_succ, List.cons_append, leadingZeros, ih]
    rfl

theorem natOfBits_cons_true (l : List Bool) :
    natOfBits (true :: l) = 2 ^ l.length + natOfBits l := by
  rw [← List.singleton_append, natOfBits_append]
  simp [natOfBits]

/-- The highest bit of a number that needs all of them is set. -/
theorem bitsOfNat_of_log2 (hv : v ≠ 0) (hn : v.log2 = n) :
    bitsOfNat (n + 1) v = true :: bitsOfNat n v := by
  have hlow : 2 ^ n ≤ v := hn ▸ Nat.log2_self_le hv
  have hhigh : v < 2 ^ (n + 1) := hn ▸ Nat.lt_log2_self
  apply eq_of_natOfBits
  · simp
  · rw [natOfBits_bitsOfNat, Nat.mod_eq_of_lt hhigh, natOfBits_cons_true, length_bitsOfNat,
      natOfBits_bitsOfNat, Nat.mod_eq_sub_mod hlow,
      Nat.mod_eq_of_lt (by rw [pow_succ] at hhigh; omega)]
    omega

theorem ueBits_eq (v : ℕ) :
    ueBits v = List.replicate (v + 1).log2 false ++ true :: bitsOfNat (v + 1).log2 (v + 1) := by
  rw [ueBits, bitsOfNat_of_log2 (Nat.succ_ne_zero v) rfl]

@[simp] theorem length_ueBits (v : ℕ) : (ueBits v).length = 2 * (v + 1).log2 + 1 := by
  simp [ueBits]
  omega

theorem readUe_ueBits (v : ℕ) (rest : List Bool) : readUe (ueBits v ++ rest) = some (v, rest) := by
  have hlow : 2 ^ (v + 1).log2 ≤ v + 1 := Nat.log2_self_le (Nat.succ_ne_zero v)
  have hhigh : v + 1 < 2 ^ ((v + 1).log2 + 1) := Nat.lt_log2_self
  have hbits := readBits_append (bitsOfNat (v + 1).log2 (v + 1)) rest
  rw [length_bitsOfNat, natOfBits_bitsOfNat, Nat.mod_eq_sub_mod hlow,
    Nat.mod_eq_of_lt (by rw [pow_succ] at hhigh; omega)] at hbits
  rw [readUe, ueBits_eq, List.append_assoc, List.cons_append, leadingZeros_replicate]
  change (readBits (v + 1).log2 (bitsOfNat (v + 1).log2 (v + 1) ++ rest) >>= _) = _
  rw [hbits]
  change some (2 ^ (v + 1).log2 + (v + 1 - 2 ^ (v + 1).log2) - 1, rest) = _
  rw [Nat.add_sub_cancel' hlow, Nat.add_sub_cancel]

theorem seValue_seCode (z : ℤ) : seValue (seCode z) = z := by
  unfold seValue seCode
  split_ifs <;> omega

theorem readSe_seBits (z : ℤ) (rest : List Bool) : readSe (seBits z ++ rest) = some (z, rest) := by
  rw [readSe, seBits, readUe_ueBits, Option.map_some, seValue_seCode]

theorem readTe_teBits {x : ℕ} (h : v ≤ x) (rest : List Bool) :
    readTe x (teBits x v ++ rest) = some (v, rest) := by
  unfold readTe teBits
  by_cases hx : x = 1
  · subst hx
    rw [if_pos rfl, if_pos rfl]
    obtain rfl | rfl : v = 0 ∨ v = 1 := by omega
    · rfl
    · rfl
  · rw [if_neg hx, if_neg hx, readUe_ueBits]

/-- The number alone, when the zeros before it are counted as its own. -/
theorem ueBits_eq_bitsOfNat (v : ℕ) : ueBits v = bitsOfNat (2 * (v + 1).log2 + 1) (v + 1) := by
  have hhigh : v + 1 < 2 ^ ((v + 1).log2 + 1) := Nat.lt_log2_self
  have hsum : 2 * (v + 1).log2 + 1 = (v + 1).log2 + ((v + 1).log2 + 1) := by omega
  rw [ueBits, hsum, bitsOfNat_add (v + 1).log2 ((v + 1).log2 + 1), Nat.div_eq_of_lt hhigh]
  congr 1
  apply eq_of_natOfBits
  · simp
  · rw [natOfBits_bitsOfNat, Nat.zero_mod, natOfBits_replicate_false]

end Pc2Drc.Lib
