import Mathlib.Data.List.Induction
import Mathlib.Data.Nat.Bits
import Mathlib.Tactic.Ring

/-! Numbers as strings of bits, the highest bit first. -/
namespace Pc2Drc.Lib

variable {a b : List Bool} {m n v : ℕ}

def natOfBits (l : List Bool) : ℕ :=
  l.foldl (fun v b => 2 * v + b.toNat) 0

/-- The low `n` bits of a number. -/
def bitsOfNat : ℕ → ℕ → List Bool
  | 0, _ => []
  | n + 1, v => bitsOfNat n (v / 2) ++ [v.testBit 0]

def bitsOfBytes (l : List UInt8) : List Bool :=
  l.flatMap (fun c => bitsOfNat 8 c.toNat)

@[simp] theorem natOfBits_nil : natOfBits [] = 0 := rfl

theorem natOfBits_concat (a : List Bool) (c : Bool) :
    natOfBits (a ++ [c]) = 2 * natOfBits a + c.toNat := by
  simp [natOfBits]

theorem natOfBits_append (a b : List Bool) :
    natOfBits (a ++ b) = natOfBits a * 2 ^ b.length + natOfBits b := by
  induction b using List.reverseRecOn with
  | nil => simp
  | append_singleton b c ih =>
    rw [← List.append_assoc, natOfBits_concat, natOfBits_concat, ih, List.length_append,
      List.length_singleton]
    ring

theorem natOfBits_lt (a : List Bool) : natOfBits a < 2 ^ a.length := by
  induction a using List.reverseRecOn with
  | nil => simp
  | append_singleton a c ih =>
    rw [natOfBits_concat, List.length_append, List.length_singleton, pow_succ]
    have hc := Bool.toNat_lt c
    omega

theorem natOfBits_replicate_false (n : ℕ) : natOfBits (List.replicate n false) = 0 := by
  induction n with
  | zero => rfl
  | succ n ih =>
    rw [List.replicate_succ', natOfBits_concat, ih]
    rfl

@[simp] theorem length_bitsOfNat (n v : ℕ) : (bitsOfNat n v).length = n := by
  induction n generalizing v with
  | zero => rfl
  | succ n ih => rw [bitsOfNat, List.length_append, ih, List.length_singleton]

theorem natOfBits_bitsOfNat (n v : ℕ) : natOfBits (bitsOfNat n v) = v % 2 ^ n := by
  induction n generalizing v with
  | zero => simp [bitsOfNat, Nat.mod_one]
  | succ n ih =>
    have hbit : (v.testBit 0).toNat = v % 2 := by
      rw [Nat.testBit_zero]
      rcases Nat.mod_two_eq_zero_or_one v with h | h
      · simp [h]
      · simp [h]
    rw [bitsOfNat, natOfBits_concat, ih, hbit, pow_succ, mul_comm (2 ^ n) 2, Nat.mod_mul]
    omega

/-- A string is told by its length and its number. -/
theorem eq_of_natOfBits (hlen : a.length = b.length) (h : natOfBits a = natOfBits b) : a = b := by
  induction a using List.reverseRecOn generalizing b with
  | nil => exact (List.length_eq_zero_iff.mp hlen.symm).symm
  | append_singleton a c ih =>
    rcases List.eq_nil_or_concat b with rfl | ⟨b, d, rfl⟩
    · simp at hlen
    · rw [List.concat_eq_append] at hlen h ⊢
      rw [natOfBits_concat, natOfBits_concat] at h
      rw [List.length_append, List.length_append, List.length_singleton, List.length_singleton]
        at hlen
      have hbit : c = d := by
        cases c <;> cases d <;> simp at h ⊢ <;> omega
      subst hbit
      rw [ih (b := b) (by omega) (by omega)]

theorem bitsOfNat_natOfBits (a : List Bool) : bitsOfNat a.length (natOfBits a) = a := by
  apply eq_of_natOfBits
  · rw [length_bitsOfNat]
  · rw [natOfBits_bitsOfNat, Nat.mod_eq_of_lt (natOfBits_lt a)]

theorem bitsOfNat_add (m n v : ℕ) :
    bitsOfNat (m + n) v = bitsOfNat m (v / 2 ^ n) ++ bitsOfNat n v := by
  apply eq_of_natOfBits
  · simp
  · rw [natOfBits_append, natOfBits_bitsOfNat, natOfBits_bitsOfNat, natOfBits_bitsOfNat,
      length_bitsOfNat, add_comm m n, pow_add, Nat.mod_mul]
    ring

theorem bitsOfNat_congr (h : m % 2 ^ n = v % 2 ^ n) : bitsOfNat n m = bitsOfNat n v := by
  apply eq_of_natOfBits
  · simp
  · rw [natOfBits_bitsOfNat, natOfBits_bitsOfNat, h]

@[simp] theorem bitsOfBytes_nil : bitsOfBytes [] = [] := rfl

@[simp] theorem bitsOfBytes_append (a b : List UInt8) :
    bitsOfBytes (a ++ b) = bitsOfBytes a ++ bitsOfBytes b := by
  simp [bitsOfBytes]

@[simp] theorem length_bitsOfBytes (l : List UInt8) : (bitsOfBytes l).length = 8 * l.length := by
  induction l with
  | nil => rfl
  | cons c l ih =>
    rw [← List.singleton_append, bitsOfBytes_append, List.length_append, ih, List.length_append,
      mul_add]
    rfl

/-- The number that a string of bytes stands for, the highest byte first. -/
def natOfBytes (l : List UInt8) : ℕ :=
  natOfBits (bitsOfBytes l)

@[simp] theorem natOfBytes_nil : natOfBytes [] = 0 := rfl

theorem natOfBytes_append (a b : List UInt8) :
    natOfBytes (a ++ b) = natOfBytes a * 2 ^ (8 * b.length) + natOfBytes b := by
  rw [natOfBytes, bitsOfBytes_append, natOfBits_append, length_bitsOfBytes]
  rfl

@[simp] theorem natOfBytes_singleton (c : UInt8) : natOfBytes [c] = c.toNat := by
  simp [natOfBytes, bitsOfBytes, natOfBits_bitsOfNat]

theorem natOfBytes_concat (a : List UInt8) (c : UInt8) :
    natOfBytes (a ++ [c]) = natOfBytes a * 2 ^ 8 + c.toNat := by
  rw [natOfBytes_append, natOfBytes_singleton]
  rfl

theorem natOfBytes_replicate_zero (n : ℕ) : natOfBytes (List.replicate n 0) = 0 := by
  induction n with
  | zero => rfl
  | succ n ih =>
    rw [List.replicate_succ', natOfBytes_concat, ih]
    rfl

/-- Bytes 0xff are one below the next place. -/
theorem natOfBytes_replicate_ff (n : ℕ) :
    natOfBytes (List.replicate n 0xff) + 1 = 2 ^ (8 * n) := by
  induction n with
  | zero => rfl
  | succ n ih =>
    rw [List.replicate_succ', natOfBytes_concat, mul_add, pow_add, ← ih]
    simp only [UInt8.reduceToNat]
    omega

theorem bitsOfBytes_cons (c : UInt8) (l : List UInt8) :
    bitsOfBytes (c :: l) = bitsOfNat 8 c.toNat ++ bitsOfBytes l := List.flatMap_cons

theorem bitsOfBytes_injective {a b : List UInt8} (h : bitsOfBytes a = bitsOfBytes b) : a = b := by
  have hlen : a.length = b.length := by
    have h8 := congrArg List.length h
    rw [length_bitsOfBytes, length_bitsOfBytes] at h8
    omega
  induction a generalizing b with
  | nil => exact (List.length_eq_zero_iff.mp hlen.symm).symm
  | cons c a ih =>
    cases b with
    | nil => simp at hlen
    | cons d b =>
      rw [bitsOfBytes_cons, bitsOfBytes_cons] at h
      obtain ⟨hbyte, hrest⟩ := List.append_inj h (by simp)
      have hnat := congrArg natOfBits hbyte
      rw [natOfBits_bitsOfNat, natOfBits_bitsOfNat, Nat.mod_eq_of_lt (UInt8.toNat_lt c),
        Nat.mod_eq_of_lt (UInt8.toNat_lt d)] at hnat
      rw [UInt8.toNat_inj.mp hnat, ih hrest (by simpa using hlen)]

/-- The low `n` bytes of a number, the highest first. -/
def bytesOfNat : ℕ → ℕ → List UInt8
  | 0, _ => []
  | n + 1, v => bytesOfNat n (v / 2 ^ 8) ++ [UInt8.ofNat v]

@[simp] theorem length_bytesOfNat (n v : ℕ) : (bytesOfNat n v).length = n := by
  induction n generalizing v with
  | zero => rfl
  | succ n ih => rw [bytesOfNat, List.length_append, ih, List.length_singleton]

theorem bitsOfBytes_bytesOfNat (n v : ℕ) : bitsOfBytes (bytesOfNat n v) = bitsOfNat (8 * n) v := by
  induction n generalizing v with
  | zero => rfl
  | succ n ih =>
    have hbyte : bitsOfBytes [UInt8.ofNat v] = bitsOfNat 8 v := by
      rw [bitsOfBytes_cons, bitsOfBytes_nil, List.append_nil]
      apply bitsOfNat_congr
      rw [UInt8.toNat_ofNat', Nat.mod_mod]
    rw [bytesOfNat, bitsOfBytes_append, ih, hbyte, mul_add, mul_one, bitsOfNat_add (8 * n) 8]

theorem bitsOfBytes_take (l : List UInt8) (m : ℕ) :
    bitsOfBytes (l.take m) = (bitsOfBytes l).take (8 * m) := by
  by_cases hm : m ≤ l.length
  · have hlen : (bitsOfBytes (l.take m)).length = 8 * m := by
      rw [length_bitsOfBytes, List.length_take, Nat.min_eq_left hm]
    conv_rhs => rw [← List.take_append_drop m l, bitsOfBytes_append, ← hlen, List.take_left]
  · rw [List.take_of_length_le (by omega),
      List.take_of_length_le (by rw [length_bitsOfBytes]; omega)]

/-- A number shifted to the left has zeros behind it. -/
theorem bitsOfNat_shiftLeft (m n v : ℕ) :
    bitsOfNat (m + n) (v <<< n) = bitsOfNat m v ++ List.replicate n false := by
  apply eq_of_natOfBits
  · simp
  · rw [natOfBits_append, natOfBits_bitsOfNat, natOfBits_bitsOfNat, natOfBits_replicate_false,
      List.length_replicate, Nat.shiftLeft_eq, pow_add, Nat.mul_mod_mul_right, add_zero]

/-- Reads a number of `n` bits, if they are there. -/
def readBits (n : ℕ) (l : List Bool) : Option (ℕ × List Bool) :=
  if n ≤ l.length then some (natOfBits (l.take n), l.drop n) else none

theorem readBits_append (a b : List Bool) :
    readBits a.length (a ++ b) = some (natOfBits a, b) := by
  rw [readBits, if_pos (by simp)]
  simp

theorem readBits_bitsOfNat (hv : v < 2 ^ n) (rest : List Bool) :
    readBits n (bitsOfNat n v ++ rest) = some (v, rest) := by
  have hread := readBits_append (bitsOfNat n v) rest
  rwa [length_bitsOfNat, natOfBits_bitsOfNat, Nat.mod_eq_of_lt hv] at hread

theorem readBits_drop {l : List Bool} (h : m + n ≤ l.length) :
    readBits n (l.drop m) = some (natOfBits ((l.drop m).take n), l.drop (m + n)) := by
  rw [readBits, if_pos (by rw [List.length_drop]; omega), List.drop_drop]

theorem natOfBits_take_add {l : List Bool} (h : m + n ≤ l.length) :
    natOfBits (l.take (m + n)) =
      natOfBits (l.take m) * 2 ^ n + natOfBits ((l.drop m).take n) := by
  have htail : ((l.drop m).take n).length = n := by
    rw [List.length_take, List.length_drop]
    omega
  rw [List.take_add, natOfBits_append, htail]

end Pc2Drc.Lib
