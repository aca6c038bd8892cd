import Pc2Drc.Lib.ExpGolomb

/-! The bit writer of the encoder: bits are gathered in a machine word and stored four bytes at a
time. The word has 32 or 64 bits, and the two have code of their own. -/
namespace Pc2Drc
open Lib

inductive WordSize
  | four
  | eight
  deriving DecidableEq, Repr

def WordSize.bytes : WordSize → ℕ
  | four => 4
  | eight => 8

theorem WordSize.bytes_eq (w : WordSize) : w.bytes = 4 ∨ w.bytes = 8 := by
  cases w with
  | four => exact Or.inl rfl
  | eight => exact Or.inr rfl

/-- A `bs_t`. `out` is what lies between `p_start` and `p`; what lies behind `p` is never read. -/
structure Bs where
  out : List UInt8
  curBits : ℕ
  left : ℕ
  deriving DecidableEq, Repr

/-- The bytes of `M32(p)` after a store of `endian_fix32(v)`. -/
def m32 (v : ℕ) : List UInt8 := bytesOfNat 4 v

namespace Bs

variable (w : WordSize)

/-- `before` are the bytes between the last address that four divides and `p_data`. -/
def init (before : List UInt8) : Bs :=
  ⟨[], natOfBytes before, (w.bytes - before.length) * 8⟩

def pos (s : Bs) : ℕ := 8 * s.out.length + w.bytes * 8 - s.left

/-- All four bytes are stored, but `p` moves only behind those that hold pending bits. -/
def flush (s : Bs) : Bs where
  out := s.out ++ (m32 (s.curBits <<< (s.left &&& 31))).take (w.bytes - s.left >>> 3)
  curBits := s.curBits
  left := w.bytes * 8

/-- The bytes of the word that are not part of the stream yet are shifted out. -/
def realign (s : Bs) : Bs :=
  let offset := s.out.length &&& 3
  if offset ≠ 0 then
    ⟨s.out.take (s.out.length - offset), natOfBytes (s.out.drop (s.out.length - offset)),
      (w.bytes - offset) * 8⟩
  else s

def write (s : Bs) (count bits : ℕ) : Bs :=
  match w with
  | .eight =>
    let cur := (s.curBits <<< count ||| bits) % 2 ^ 64
    let left := s.left - count
    if left ≤ 32 then ⟨s.out ++ m32 (((cur <<< left) % 2 ^ 64) >>> 32), cur, left + 32⟩
    else ⟨s.out, cur, left⟩
  | .four =>
    if count < s.left then ⟨s.out, (s.curBits <<< count ||| bits) % 2 ^ 32, s.left - count⟩
    else
      let count := count - s.left
      let cur := (s.curBits <<< s.left ||| bits >>> count) % 2 ^ 32
      ⟨s.out ++ m32 cur, bits, 32 - count⟩

def write32 (s : Bs) (bits : ℕ) : Bs := write w (write w s 16 (bits >>> 16)) 16 bits

def write1 (s : Bs) (bit : ℕ) : Bs :=
  let cur := (s.curBits <<< 1 ||| bit) % 2 ^ (8 * w.bytes)
  if s.left - 1 = w.bytes * 8 - 32 then ⟨s.out ++ m32 cur, cur, w.bytes * 8⟩
  else ⟨s.out, cur, s.left - 1⟩

def align0 (s : Bs) : Bs := flush w (write w s (s.left &&& 7) 0)

def align1 (s : Bs) : Bs := flush w (write w s (s.left &&& 7) ((1 <<< (s.left &&& 7)) - 1))

def align10 (s : Bs) : Bs :=
  if s.left &&& 7 ≠ 0 then write w s (s.left &&& 7) (1 <<< ((s.left &&& 7) - 1)) else s

def rbspTrailing (s : Bs) : Bs :=
  let s := write1 w s 1
  write w s (s.left &&& 7) 0

end Bs

/-- `x264_ue_size_tab`. -/
def ueSizeTab : List ℕ :=
  [1, 1, 3, 3, 5, 5, 5, 5, 7, 7, 7, 7, 7, 7, 7, 7] ++ List.replicate 16 9 ++
    List.replicate 32 11 ++ List.replicate 64 13 ++ List.replicate 128 15

def ueSize (i : ℕ) : ℕ := ueSizeTab.getD i 0

namespace Bs

variable (w : WordSize)

/-- `size` of `bs_write_ue_big`, for the `val` that it has counted up. -/
def ueBigSize (val : ℕ) : ℕ :=
  let size := if val ≥ 0x10000 then 32 else 0
  let tmp := if val ≥ 0x10000 then val >>> 16 else val
  if tmp ≥ 0x100 then size + 16 + ueSize (tmp >>> 8) else size + ueSize tmp

def writeUeBig (s : Bs) (val : ℕ) : Bs :=
  let val := val + 1
  let size := ueBigSize val
  write w (write w s (size >>> 1) 0) (size >>> 1 + 1) val

def writeUe (s : Bs) (val : ℕ) : Bs := write w s (ueSize (val + 1)) (val + 1)

/-- `tmp` of `bs_write_se` and `bs_size_se`. -/
def seTmp (val : ℤ) : ℕ := (if 1 - val * 2 < 0 then val * 2 else 1 - val * 2).toNat

def writeSe (s : Bs) (val : ℤ) : Bs :=
  let val := seTmp val
  write w s (if val ≥ 0x100 then 16 + ueSize (val >>> 8) else ueSize val) val

def writeTe (s : Bs) (x val : ℕ) : Bs :=
  if x = 1 then write1 w s (1 ^^^ val) else writeUe w s val

def sizeUe (val : ℕ) : ℕ := ueSize (val + 1)

def sizeUeBig (val : ℕ) : ℕ :=
  if val < 255 then ueSize (val + 1) else ueSize ((val + 1) >>> 8) + 16

def sizeSe (val : ℤ) : ℕ :=
  if seTmp val < 256 then ueSize (seTmp val) else ueSize (seTmp val >>> 8) + 16

def sizeTe (x val : ℕ) : ℕ := if x = 1 then 1 else ueSize (val + 1)

end Bs

variable {w w' : WordSize} {s : Bs} {count v : ℕ}

/-- How many bits wait in the word. -/
def Bs.pending (w : WordSize) (s : Bs) : ℕ := w.bytes * 8 - s.left

/-- The bits of the stream, stored or waiting. -/
def Bs.bits (w : WordSize) (s : Bs) : List Bool :=
  bitsOfBytes s.out ++ bitsOfNat (s.pending w) s.curBits

/-- Fewer bits wait than are stored at a time. -/
structure Bs.Ok (w : WordSize) (s : Bs) : Prop where
  low : w.bytes * 8 < s.left + 32
  high : s.left ≤ w.bytes * 8

/-- What a number has above its `count` bits is in the word already. -/
def Absorbed (cur count v : ℕ) : Prop := cur ||| v >>> count = cur

theorem absorbed_of_lt {cur : ℕ} (h : v < 2 ^ count) : Absorbed cur count v := by
  rw [Absorbed, Nat.shiftRight_eq_div_pow, Nat.div_eq_of_lt h, Nat.or_zero]

theorem or_of_absorbed {cur : ℕ} (h : Absorbed cur count v) :
    cur <<< count ||| v = cur * 2 ^ count + v % 2 ^ count := by
  have hv : v >>> count <<< count ||| v % 2 ^ count = v := by
    rw [← Nat.shiftLeft_add_eq_or_of_lt (Nat.mod_lt _ (Nat.two_pow_pos count)),
      Nat.shiftRight_eq_div_pow, Nat.shiftLeft_eq, mul_comm, Nat.div_add_mod]
  calc cur <<< count ||| v
      = cur <<< count ||| (v >>> count <<< count ||| v % 2 ^ count) := by rw [hv]
    _ = (cur ||| v >>> count) <<< count ||| v % 2 ^ count := by
      rw [← Nat.or_assoc, Nat.shiftLeft_or_distrib]
    _ = cur <<< count ||| v % 2 ^ count := by rw [h]
    _ = cur * 2 ^ count + v % 2 ^ count := by
      rw [← Nat.shiftLeft_add_eq_or_of_lt (Nat.mod_lt _ (Nat.two_pow_pos count)),
        Nat.shiftLeft_eq]

/-- A number taken into the word. -/
theorem bitsOfNat_push {k cur m : ℕ} (h : Absorbed cur count v) (hm : k + count ≤ m) :
    bitsOfNat (k + count) ((cur <<< count ||| v) % 2 ^ m) =
      bitsOfNat k cur ++ bitsOfNat count v := by
  have hmod : (cur <<< count ||| v) % 2 ^ m % 2 ^ (k + count) =
      (cur * 2 ^ count + v % 2 ^ count) % 2 ^ (k + count) := by
    rw [Nat.mod_mod_of_dvd _ (Nat.pow_dvd_pow 2 hm), or_of_absorbed h]
  rw [bitsOfNat_congr hmod, bitsOfNat_add]
  congr 1
  · rw [mul_comm, Nat.mul_add_div (Nat.two_pow_pos count),
      Nat.div_eq_of_lt (Nat.mod_lt _ (Nat.two_pow_pos count)), add_zero]
  · apply bitsOfNat_congr
    rw [Nat.mul_add_mod_self_right, Nat.mod_mod]

theorem bitsOfBytes_m32 (v : ℕ) : bitsOfBytes (m32 v) = bitsOfNat 32 v :=
  bitsOfBytes_bytesOfNat 4 v

theorem shiftLeft_window {l m : ℕ} (cur n : ℕ) (h : l ≤ m) :
    ((cur <<< l) % 2 ^ (m + n)) >>> m = cur / 2 ^ (m - l) % 2 ^ n := by
  have hpow : 2 ^ m = 2 ^ (m - l) * 2 ^ l := by
    rw [← pow_add, Nat.sub_add_cancel h]
  rw [Nat.shiftRight_eq_div_pow, Nat.shiftLeft_eq, pow_add, Nat.mod_mul_right_div_self, hpow,
    Nat.mul_div_mul_right _ _ (Nat.two_pow_pos l)]

/-- The oldest bits of the word go out, the rest stay. -/
theorem bitsOfNat_window {l m : ℕ} (cur n : ℕ) (h : l ≤ m) :
    bitsOfNat n (((cur <<< l) % 2 ^ (m + n)) >>> m) ++ bitsOfNat (m - l) cur =
      bitsOfNat (m + n - l) cur := by
  have hsum : m + n - l = n + (m - l) := by omega
  rw [shiftLeft_window cur n h, hsum, bitsOfNat_add n (m - l)]
  congr 1
  apply bitsOfNat_congr
  rw [Nat.mod_mod]

theorem Bs.Ok.write_eight (h : s.Ok .eight) (hv : Absorbed s.curBits count v)
    (hcount : count ≤ 31) :
    (Bs.write .eight s count v).Ok .eight ∧
      (Bs.write .eight s count v).bits .eight = s.bits .eight ++ bitsOfNat count v := by
  obtain ⟨hlow, hhigh⟩ := h
  simp only [WordSize.bytes] at hlow hhigh
  have hk : 64 - s.left + count = 64 - (s.left - count) := by omega
  have hpush := bitsOfNat_push hv (m := 64) (by omega : 64 - s.left + count ≤ 64)
  rw [hk] at hpush
  have hbits : s.bits .eight ++ bitsOfNat count v = bitsOfBytes s.out ++
      bitsOfNat (64 - (s.left - count)) ((s.curBits <<< count ||| v) % 2 ^ 64) := by
    rw [hpush, ← List.append_assoc]
    rfl
  by_cases hle : s.left - count ≤ 32
  · have hwrite : Bs.write .eight s count v = ⟨s.out ++ m32 (((((s.curBits <<< count ||| v) %
        2 ^ 64) <<< (s.left - count)) % 2 ^ 64) >>> 32), (s.curBits <<< count ||| v) % 2 ^ 64,
        s.left - count + 32⟩ := if_pos hle
    have hk : 64 - (s.left - count + 32) = 32 - (s.left - count) := by omega
    rw [hwrite, hbits]
    refine ⟨⟨?_, ?_⟩, ?_⟩
    · change 64 < s.left - count + 32 + 32
      omega
    · change s.left - count + 32 ≤ 64
      omega
    · change bitsOfBytes (_ ++ _) ++ bitsOfNat (64 - (s.left - count + 32)) _ = _
      rw [bitsOfBytes_append, bitsOfBytes_m32, List.append_assoc, hk, bitsOfNat_window _ 32 hle]
  · have hwrite : Bs.write .eight s count v = ⟨s.out, (s.curBits <<< count ||| v) % 2 ^ 64,
        s.left - count⟩ := if_neg hle
    rw [hwrite, hbits]
    refine ⟨⟨?_, ?_⟩, rfl⟩
    · change 64 < s.left - count + 32
      omega
    · change s.left - count ≤ 64
      omega

/-- The word is filled to the last bit, stored, and starts again with what did not fit. -/
theorem Bs.Ok.write_four (h : s.Ok .four) (hv : Absorbed s.curBits count v) (hcount : count ≤ 31) :
    (Bs.write .four s count v).Ok .four ∧
      (Bs.write .four s count v).bits .four = s.bits .four ++ bitsOfNat count v := by
  obtain ⟨hlow, hhigh⟩ := h
  simp only [WordSize.bytes] at hlow hhigh
  by_cases hlt : count < s.left
  · have hwrite : Bs.write .four s count v = ⟨s.out, (s.curBits <<< count ||| v) % 2 ^ 32,
        s.left - count⟩ := if_pos hlt
    have hk : 32 - (s.left - count) = 32 - s.left + count := by omega
    rw [hwrite]
    refine ⟨⟨?_, ?_⟩, ?_⟩
    · change 32 < s.left - count + 32
      omega
    · change s.left - count ≤ 32
      omega
    · change bitsOfBytes s.out ++ bitsOfNat (32 - (s.left - count)) _ = _
      rw [hk, bitsOfNat_push hv (by omega), ← List.append_assoc]
      rfl
  · obtain ⟨m, rfl⟩ := Nat.exists_eq_add_of_le (Nat.le_of_not_lt hlt)
    have hwrite : Bs.write .four s (s.left + m) v = ⟨s.out ++ m32 ((s.curBits <<< s.left |||
        v >>> m) % 2 ^ 32), v, 32 - m⟩ := by
      refine (if_neg hlt).trans ?_
      rw [Nat.add_sub_cancel_left]
    have hk : 32 - (32 - m) = m := by omega
    have hhead : Absorbed s.curBits s.left (v >>> m) := by
      rw [Absorbed, ← Nat.shiftRight_add, Nat.add_comm]
      exact hv
    have hpush := bitsOfNat_push hhead (m := 32)
      (by omega : 32 - s.left + s.left ≤ 32)
    rw [Nat.sub_add_cancel hhigh] at hpush
    rw [hwrite]
    refine ⟨⟨?_, ?_⟩, ?_⟩
    · change 32 < 32 - m + 32
      omega
    · change 32 - m ≤ 32
      omega
    · change bitsOfBytes (_ ++ _) ++ bitsOfNat (32 - (32 - m)) v =
        bitsOfBytes s.out ++ bitsOfNat (32 - s.left) s.curBits ++ bitsOfNat (s.left + m) v
      rw [bitsOfBytes_append, bitsOfBytes_m32, hk, hpush, bitsOfNat_add s.left m,
        Nat.shiftRight_eq_div_pow]
      simp only [List.append_assoc]

/-- The number is put behind the others. -/
theorem Bs.Ok.write (h : s.Ok w) (hv : Absorbed s.curBits count v) (hcount : count ≤ 31) :
    (Bs.write w s count v).Ok w ∧
      (Bs.write w s count v).bits w = s.bits w ++ bitsOfNat count v := by
  cases w with
  | eight => exact h.write_eight hv hcount
  | four => exact h.write_four hv hcount

theorem Bs.Ok.write_lt (h : s.Ok w) (hv : v < 2 ^ count) (hcount : count ≤ 31) :
    (Bs.write w s count v).Ok w ∧
      (Bs.write w s count v).bits w = s.bits w ++ bitsOfNat count v :=
  h.write (absorbed_of_lt hv) hcount

theorem mod_or_self {x m : ℕ} (hv : v < 2 ^ m) : (x ||| v) % 2 ^ m ||| v = (x ||| v) % 2 ^ m := by
  apply Nat.eq_of_testBit_eq
  intro i
  rw [Nat.testBit_or, Nat.testBit_mod_two_pow, Nat.testBit_or]
  by_cases hi : i < m
  · simp only [hi, decide_true, Bool.true_and]
    cases x.testBit i <;> cases v.testBit i <;> rfl
  · have hbit : v.testBit i = false :=
      Nat.testBit_lt_two_pow
        (lt_of_lt_of_le hv (Nat.pow_le_pow_right Nat.two_pos (Nat.le_of_not_lt hi)))
    simp only [hi, decide_false, Bool.false_and, hbit, Bool.or_false]

/-- The number is still in the word after the call. -/
theorem curBits_write (hv : v < 2 ^ 32) :
    (Bs.write w s count v).curBits ||| v = (Bs.write w s count v).curBits := by
  cases w with
  | eight =>
    have hcur : (Bs.write .eight s count v).curBits = (s.curBits <<< count ||| v) % 2 ^ 64 := by
      rw [Bs.write]
      split <;> rfl
    rw [hcur]
    exact mod_or_self (lt_trans hv (by decide))
  | four =>
    by_cases hlt : count < s.left
    · have hcur : (Bs.write .four s count v).curBits = (s.curBits <<< count ||| v) % 2 ^ 32 := by
        rw [Bs.write, if_pos hlt]
      rw [hcur]
      exact mod_or_self hv
    · have hcur : (Bs.write .four s count v).curBits = v := by
        rw [Bs.write, if_neg hlt]
      rw [hcur, Nat.or_self]

/-- The upper half is put in twice: the second call finds it in the word. -/
theorem Bs.Ok.write32 (h : s.Ok w) (hv : v < 2 ^ 32) :
    (Bs.write32 w s v).Ok w ∧ (Bs.write32 w s v).bits w = s.bits w ++ bitsOfNat 32 v := by
  have hhalf : v >>> 16 < 2 ^ 16 := by
    rw [Nat.shiftRight_eq_div_pow, Nat.div_lt_iff_lt_mul (Nat.two_pow_pos _), ← pow_add]
    exact hv
  obtain ⟨h₁, hb₁⟩ := h.write_lt hhalf (by decide)
  have habs : Absorbed (Bs.write w s 16 (v >>> 16)).curBits 16 v :=
    curBits_write (lt_trans hhalf (by decide))
  obtain ⟨h₂, hb₂⟩ := h₁.write habs (by decide)
  refine ⟨h₂, ?_⟩
  rw [Bs.write32, hb₂, hb₁, List.append_assoc, Nat.shiftRight_eq_div_pow, ← bitsOfNat_add]

theorem Bs.Ok.write1 (h : s.Ok w) (hv : v < 2) :
    (Bs.write1 w s v).Ok w ∧ (Bs.write1 w s v).bits w = s.bits w ++ bitsOfNat 1 v := by
  obtain ⟨hlow, hhigh⟩ := h
  have hw := w.bytes_eq
  have hpush := bitsOfNat_push (m := 8 * w.bytes) (k := s.pending w)
    (absorbed_of_lt hv : Absorbed s.curBits 1 v) (by rw [Bs.pending]; omega)
  by_cases hfull : s.left - 1 = w.bytes * 8 - 32
  · have hwrite : Bs.write1 w s v = ⟨s.out ++ m32 ((s.curBits <<< 1 ||| v) % 2 ^ (8 * w.bytes)),
        (s.curBits <<< 1 ||| v) % 2 ^ (8 * w.bytes), w.bytes * 8⟩ := if_pos hfull
    have hk : s.pending w + 1 = 32 := by
      rw [Bs.pending]
      omega
    rw [hk] at hpush
    rw [hwrite]
    refine ⟨⟨Nat.lt_add_of_pos_right (by decide), le_refl _⟩, ?_⟩
    rw [Bs.bits, Bs.pending, Nat.sub_self, bitsOfBytes_append, bitsOfBytes_m32, hpush, bitsOfNat,
      List.append_nil, Bs.bits, List.append_assoc]
  · have hwrite : Bs.write1 w s v = ⟨s.out, (s.curBits <<< 1 ||| v) % 2 ^ (8 * w.bytes),
        s.left - 1⟩ := if_neg hfull
    have hk : w.bytes * 8 - (s.left - 1) = s.pending w + 1 := by
      rw [Bs.pending]
      omega
    rw [hwrite]
    refine ⟨⟨?_, ?_⟩, ?_⟩
    · change w.bytes * 8 < s.left - 1 + 32
      omega
    · change s.left - 1 ≤ w.bytes * 8
      omega
    · change bitsOfBytes s.out ++ bitsOfNat (w.bytes * 8 - (s.left - 1)) _ = _
      rw [hk, hpush, Bs.bits, List.append_assoc]

/-- The bits up to the next byte. -/
def padding (n : ℕ) : ℕ := (8 - n % 8) % 8

theorem Bs.length_bits (w : WordSize) (s : Bs) :
    (s.bits w).length = 8 * s.out.length + s.pending w := by
  rw [Bs.bits, List.length_append, length_bitsOfBytes, length_bitsOfNat]

/-- How far the stream is from the next byte. -/
theorem Bs.Ok.left_and (h : s.Ok w) : s.left &&& 7 = padding (s.bits w).length := by
  obtain ⟨hlow, hhigh⟩ := h
  have hand : s.left &&& 7 = s.left % 8 := Nat.and_two_pow_sub_one_eq_mod s.left 3
  rw [hand, Bs.length_bits, Bs.pending, padding]
  omega

theorem bitsOfBytes_flushed (cur : ℕ) {k m : ℕ} (hk : k < 32) (hm : 8 * m = k + padding k) :
    bitsOfBytes ((m32 (cur <<< ((32 - k) % 32))).take m) =
      bitsOfNat k cur ++ List.replicate (padding k) false := by
  have hpad : padding k < 8 := Nat.mod_lt _ (by decide)
  by_cases hk0 : k = 0
  · subst hk0
    have hm0 : m = 0 := by
      have hzero : padding 0 = 0 := rfl
      omega
    subst hm0
    rfl
  · have hmod : (32 - k) % 32 = 32 - k := Nat.mod_eq_of_lt (by omega)
    have hsum : 32 = k + (32 - k) := by omega
    have hword : bitsOfNat 32 (cur <<< (32 - k)) =
        bitsOfNat k cur ++ List.replicate (32 - k) false := by
      conv_lhs => rw [hsum, Nat.add_sub_cancel_left]
      exact bitsOfNat_shiftLeft k (32 - k) cur
    have htake : (bitsOfNat k cur ++ List.replicate (32 - k) false).take (k + padding k) =
        bitsOfNat k cur ++ List.replicate (padding k) false := by
      have hmin : min (padding k) (32 - k) = padding k := by
        unfold padding at *
        omega
      rw [List.take_append, List.take_of_length_le (by rw [length_bitsOfNat]; omega),
        length_bitsOfNat, Nat.add_sub_cancel_left, List.take_replicate, hmin]
    rw [bitsOfBytes_take, bitsOfBytes_m32, hmod, hword, hm, htake]

/-- The stream is filled up to the next byte. -/
theorem Bs.Ok.flush (h : s.Ok w) :
    (Bs.flush w s).Ok w ∧ bitsOfBytes (Bs.flush w s).out =
      s.bits w ++ List.replicate (padding (s.bits w).length) false := by
  obtain ⟨hlow, hhigh⟩ := h
  have hw := w.bytes_eq
  refine ⟨⟨Nat.lt_add_of_pos_right (by decide), le_refl _⟩, ?_⟩
  have hand : s.left &&& 31 = (32 - s.pending w) % 32 := by
    have hmod : s.left &&& 31 = s.left % 32 := Nat.and_two_pow_sub_one_eq_mod s.left 5
    rw [hmod, Bs.pending]
    omega
  have hpad : padding (s.bits w).length = padding (s.pending w) := by
    rw [Bs.length_bits, padding, padding]
    omega
  have hm : 8 * (w.bytes - s.left >>> 3) = s.pending w + padding (s.pending w) := by
    rw [Nat.shiftRight_eq_div_pow, Bs.pending, padding]
    omega
  rw [Bs.flush, bitsOfBytes_append, hand,
    bitsOfBytes_flushed s.curBits (by rw [Bs.pending]; omega) hm, hpad, Bs.bits, List.append_assoc]

theorem bitsOfNat_natOfBytes (l : List UInt8) :
    bitsOfNat (8 * l.length) (natOfBytes l) = bitsOfBytes l := by
  rw [← length_bitsOfBytes, natOfBytes, bitsOfNat_natOfBits]

theorem Bs.init_ok {before : List UInt8} (h : before.length < 4) :
    (Bs.init w before).Ok w ∧ (Bs.init w before).bits w = bitsOfBytes before := by
  have hw := w.bytes_eq
  have hpending : (Bs.init w before).pending w = 8 * before.length := by
    change w.bytes * 8 - (w.bytes - before.length) * 8 = _
    omega
  refine ⟨⟨?_, ?_⟩, ?_⟩
  · change w.bytes * 8 < (w.bytes - before.length) * 8 + 32
    omega
  · change (w.bytes - before.length) * 8 ≤ w.bytes * 8
    omega
  · rw [Bs.bits, hpending, Bs.init, bitsOfNat_natOfBytes]
    rfl

/-- The bytes that are taken back into the word are those the stream ends with. -/
theorem Bs.realign_ok (h : s.left = w.bytes * 8) :
    (Bs.realign w s).Ok w ∧ (Bs.realign w s).bits w = bitsOfBytes s.out := by
  have hw := w.bytes_eq
  have hand : s.out.length &&& 3 = s.out.length % 4 := Nat.and_two_pow_sub_one_eq_mod _ 2
  by_cases ho : s.out.length &&& 3 = 0
  · rw [Bs.realign, if_neg (not_not_intro ho)]
    refine ⟨⟨by omega, h.le⟩, ?_⟩
    rw [Bs.bits, Bs.pending, h, Nat.sub_self, bitsOfNat, List.append_nil]
  · have hrealign : Bs.realign w s = ⟨s.out.take (s.out.length - (s.out.length &&& 3)),
        natOfBytes (s.out.drop (s.out.length - (s.out.length &&& 3))),
        (w.bytes - (s.out.length &&& 3)) * 8⟩ := if_pos ho
    rw [hrealign]
    refine ⟨⟨?_, ?_⟩, ?_⟩
    · change w.bytes * 8 < (w.bytes - (s.out.length &&& 3)) * 8 + 32
      omega
    · change (w.bytes - (s.out.length &&& 3)) * 8 ≤ w.bytes * 8
      omega
    · have hdrop : 8 * (s.out.drop (s.out.length - (s.out.length &&& 3))).length =
          w.bytes * 8 - (w.bytes - (s.out.length &&& 3)) * 8 := by
        rw [List.length_drop]
        omega
      rw [Bs.bits, Bs.pending, ← hdrop, bitsOfNat_natOfBytes, ← bitsOfBytes_append,
        List.take_append_drop]

theorem Bs.Ok.flush_bits (h : s.Ok w) : (Bs.flush w s).bits w =
    s.bits w ++ List.replicate (padding (s.bits w).length) false := by
  rw [← h.flush.2, Bs.bits, Bs.pending, Bs.flush, Nat.sub_self, bitsOfNat, List.append_nil]

theorem padding_add_padding (n : ℕ) : padding (n + padding n) = 0 := by
  unfold padding
  omega

/-- A write up to the next byte leaves nothing for `bs_flush` to fill. -/
theorem Bs.Ok.write_flush (h : s.Ok w) (hv : v < 2 ^ padding (s.bits w).length) :
    (Bs.flush w (Bs.write w s (s.left &&& 7) v)).Ok w ∧
      (Bs.flush w (Bs.write w s (s.left &&& 7) v)).bits w =
        s.bits w ++ bitsOfNat (padding (s.bits w).length) v := by
  have hpad : padding (s.bits w).length < 8 := Nat.mod_lt _ (by decide)
  obtain ⟨h₁, hb₁⟩ := h.write_lt hv (by omega)
  rw [h.left_and]
  refine ⟨h₁.flush.1, ?_⟩
  rw [h₁.flush_bits, hb₁, List.length_append, length_bitsOfNat, padding_add_padding,
    List.replicate_zero, List.append_nil]

theorem bitsOfNat_zero (n : ℕ) : bitsOfNat n 0 = List.replicate n false := by
  apply eq_of_natOfBits
  · simp
  · rw [natOfBits_bitsOfNat, Nat.zero_mod, natOfBits_replicate_false]

theorem bitsOfNat_ones (n : ℕ) : bitsOfNat n ((1 <<< n) - 1) = List.replicate n true := by
  induction n with
  | zero => rfl
  | succ n ih =>
    have hhalf : ((1 <<< (n + 1)) - 1) / 2 = (1 <<< n) - 1 := by
      rw [Nat.one_shiftLeft, Nat.one_shiftLeft, pow_succ]
      omega
    have hodd : ((1 <<< (n + 1)) - 1).testBit 0 = true := by
      rw [Nat.testBit_zero, Nat.one_shiftLeft, pow_succ, decide_eq_true_eq]
      have := Nat.two_pow_pos n
      omega
    rw [bitsOfNat, hhalf, ih, hodd, List.replicate_succ']

theorem bitsOfNat_stop (n : ℕ) :
    bitsOfNat (n + 1) (1 <<< n) = true :: List.replicate n false := by
  rw [add_comm, bitsOfNat_shiftLeft]
  rfl

theorem Bs.Ok.align0 (h : s.Ok w) :
    (Bs.align0 w s).Ok w ∧ (Bs.align0 w s).bits w =
      s.bits w ++ List.replicate (padding (s.bits w).length) false := by
  rw [← bitsOfNat_zero]
  exact h.write_flush (Nat.two_pow_pos _)

theorem Bs.Ok.align1 (h : s.Ok w) :
    (Bs.align1 w s).Ok w ∧ (Bs.align1 w s).bits w =
      s.bits w ++ List.replicate (padding (s.bits w).length) true := by
  have hpos := Nat.two_pow_pos (padding (s.bits w).length)
  rw [← bitsOfNat_ones, Bs.align1, h.left_and]
  have hwrite := h.write_flush (v := (1 <<< padding (s.bits w).length) - 1)
    (by rw [Nat.one_shiftLeft]; omega)
  rwa [h.left_and] at hwrite

theorem Bs.Ok.align10 (h : s.Ok w) :
    (Bs.align10 w s).Ok w ∧ (Bs.align10 w s).bits w =
      s.bits w ++ (true :: List.replicate 7 false).take (padding (s.bits w).length) := by
  have hpad : padding (s.bits w).length < 8 := Nat.mod_lt _ (by decide)
  rw [Bs.align10, h.left_and]
  split
  · rename_i hne
    obtain ⟨n, hn⟩ := Nat.exists_eq_succ_of_ne_zero hne
    have hmin : min n 7 = n := by omega
    rw [hn] at hpad ⊢
    rw [List.take_succ_cons, List.take_replicate, hmin, ← bitsOfNat_stop]
    refine h.write_lt ?_ (by omega)
    rw [Nat.one_shiftLeft]
    exact Nat.pow_lt_pow_right (by decide) (Nat.lt_succ_self n)
  · rename_i heq
    rw [not_not.mp heq]
    exact ⟨h, (List.append_nil _).symm⟩

theorem Bs.Ok.rbspTrailing (h : s.Ok w) :
    (Bs.rbspTrailing w s).Ok w ∧ (Bs.rbspTrailing w s).bits w =
      s.bits w ++ true :: List.replicate (padding ((s.bits w).length + 1)) false := by
  obtain ⟨h₁, hb₁⟩ := h.write1 (v := 1) (by decide)
  have hpad : padding (((Bs.write1 w s 1).bits w).length) < 8 := Nat.mod_lt _ (by decide)
  obtain ⟨h₂, hb₂⟩ := h₁.write_lt
    (Nat.two_pow_pos _ : 0 < 2 ^ padding ((Bs.write1 w s 1).bits w).length) (by omega)
  rw [Bs.rbspTrailing]
  change (Bs.write w (Bs.write1 w s 1) ((Bs.write1 w s 1).left &&& 7) 0).Ok w ∧
    (Bs.write w (Bs.write1 w s 1) ((Bs.write1 w s 1).left &&& 7) 0).bits w = _
  rw [h₁.left_and]
  refine ⟨h₂, ?_⟩
  rw [hb₂, hb₁, bitsOfNat_zero, List.length_append, length_bitsOfNat, List.append_assoc]
  rfl

end Pc2Drc
