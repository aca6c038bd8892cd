import Mathlib.Data.Nat.Bitwise
import Mathlib.Data.List.Basic

/-! Byte objects with checked access, and the words that are split over their bytes. -/
namespace Pc2Drc.Lib

/-- Why an execution has no meaning: an access outside an object, a read of bytes nobody
wrote, a failed assertion, or the use of a destroyed object. -/
inductive Fault
  | overrun
  | outOfBounds
  | indeterminate
  | assertion
  | dangling
  deriving DecidableEq, Repr

theorem bind_eq_ok {ε α β : Type} {x : Except ε α} {f : α → Except ε β} {b : β} :
    (x >>= f) = .ok b ↔ ∃ a, x = .ok a ∧ f a = .ok b := by
  cases x with
  | error e => simp [bind, Except.bind]
  | ok a => simp [bind, Except.bind]

theorem bind_eq_error {ε α β : Type} {x : Except ε α} {f : α → Except ε β} {e : ε} :
    (x >>= f) = .error e ↔ x = .error e ∨ ∃ a, x = .ok a ∧ f a = .error e := by
  cases x with
  | error e => simp [bind, Except.bind]
  | ok a => simp [bind, Except.bind]

theorem bind_congr_ok {ε α β : Type} {x : Except ε α} {f g : α → Except ε β}
    (h : ∀ a, x = .ok a → f a = g a) : (x >>= f) = (x >>= g) := by
  cases x with
  | error e => rfl
  | ok a => exact h a rfl

/-- `memcpy` into the middle of an object. -/
def blit {α : Type*} (l : List α) (off : ℕ) (src : List α) : List α :=
  l.take off ++ src ++ l.drop (off + src.length)

theorem length_blit {α : Type*} {l src : List α} {off : ℕ} (h : off + src.length ≤ l.length) :
    (blit l off src).length = l.length := by
  simp [blit]
  omega

theorem getElem?_blit_of_outside {α : Type*} {l src : List α} {off i : ℕ}
    (h : off + src.length ≤ l.length) (hi : i < off ∨ off + src.length ≤ i) :
    (blit l off src)[i]? = l[i]? := by
  rw [blit, List.append_assoc]
  rcases hi with hi | hi
  · rw [List.getElem?_append_left (by simp; omega), List.getElem?_take_of_lt hi]
  · rw [List.getElem?_append_right (by simp; omega), List.getElem?_append_right (by simp; omega),
      List.getElem?_drop]
    congr 1
    simp
    omega

/-- A copy element by element. -/
theorem blit_set {α : Type*} {l src : List α} {off : ℕ} {x : α} (h : off < l.length) :
    blit (l.set off x) (off + 1) src = blit l off (x :: src) := by
  have htake : (l.set off x).take (off + 1) = l.take off ++ [x] := by
    rw [List.set_eq_take_append_cons_drop, if_pos h, List.take_append]
    simp [Nat.min_eq_left h.le, List.take_take]
  have hoff : off + 1 + src.length = off + (src.length + 1) := by omega
  rw [blit, blit, htake, List.drop_set_of_lt (by omega), List.length_cons, hoff]
  simp

/-- An object's bytes; `none` is a byte that was never written. -/
abbrev Cells := List (Option UInt8)

def load (m : Cells) (i : ℕ) : Except Fault UInt8 :=
  match m[i]? with
  | none => .error .outOfBounds
  | some none => .error .indeterminate
  | some (some b) => .ok b

def loadRange (m : Cells) (off : ℕ) : ℕ → Except Fault (List UInt8)
  | 0 => .ok []
  | n + 1 => do
    let b ← load m off
    let bs ← loadRange m (off + 1) n
    return b :: bs

theorem load_eq_ok {m : Cells} {i : ℕ} {b : UInt8} : load m i = .ok b ↔ m[i]? = some (some b) := by
  unfold load
  split <;> simp_all

/-- The faults of an access, as against those of an assertion or of a lifetime. -/
def Fault.ofAccess : Fault → Bool
  | .overrun | .outOfBounds | .indeterminate => true
  | .assertion | .dangling => false

theorem ofAccess_load {m : Cells} {i : ℕ} {e : Fault} (h : load m i = .error e) :
    e.ofAccess = true := by
  unfold load at h
  split at h <;> cases h <;> rfl

theorem ofAccess_loadRange {m : Cells} {off n : ℕ} {e : Fault}
    (h : loadRange m off n = .error e) : e.ofAccess = true := by
  induction n generalizing off with
  | zero => cases h
  | succ n ih =>
    rcases bind_eq_error.mp h with h | ⟨b, -, h⟩
    · exact ofAccess_load h
    · rcases bind_eq_error.mp h with h | ⟨bs, -, h⟩
      · exact ih h
      · cases h

/-- A range is read exactly when every byte of it lies in the object and was written. -/
theorem loadRange_eq_ok {m : Cells} {off n : ℕ} {bs : List UInt8} :
    loadRange m off n = .ok bs ↔ bs.length = n ∧ ∀ k, k < n → m[off + k]? = some bs[k]? := by
  induction n generalizing off bs with
  | zero => simp [loadRange, eq_comm]
  | succ n ih =>
    simp only [loadRange, bind_eq_ok, pure, Except.pure, Except.ok.injEq, load_eq_ok]
    constructor
    · rintro ⟨b, hb, bs', hbs, rfl⟩
      obtain ⟨hlen, hget⟩ := ih.mp hbs
      refine ⟨by simp [hlen], ?_⟩
      rintro (_ | k) hk
      · simpa using hb
      · rw [List.getElem?_cons_succ, ← hget k (by omega), Nat.add_right_comm, Nat.add_assoc]
    · rintro ⟨hlen, hget⟩
      cases bs with
      | nil => simp at hlen
      | cons b bs' =>
        refine ⟨b, by simpa using hget 0 (by omega), bs', ih.mpr ⟨by simpa using hlen, ?_⟩, rfl⟩
        intro k hk
        rw [Nat.add_right_comm, Nat.add_assoc, hget (k + 1) (by omega), List.getElem?_cons_succ]

/-- Reading back a written part of an object. -/
theorem loadRange_append {l r : Cells} {b : List UInt8} :
    loadRange (l ++ b.map some ++ r) l.length b.length = .ok b := by
  rw [loadRange_eq_ok]
  refine ⟨rfl, ?_⟩
  intro k hk
  simp [List.getElem?_append, hk]

/-- The two bytes of a 16-bit word, and the word of two bytes. -/
def hiByte (w : UInt16) : UInt8 := (w >>> 8).toUInt8

def loByte (w : UInt16) : UInt8 := (w &&& 0xFF).toUInt8

def u16OfBytes (hi lo : UInt8) : UInt16 := hi.toUInt16 <<< 8 ||| lo.toUInt16

theorem toNat_u16OfBytes (hi lo : UInt8) :
    (u16OfBytes hi lo).toNat = hi.toNat * 256 + lo.toNat := by
  have hl := lo.toNat_lt
  have hh := hi.toNat_lt
  have hs : (hi.toNat <<< 8) % 2 ^ 16 = hi.toNat <<< 8 := by
    rw [Nat.shiftLeft_eq]
    omega
  simp only [u16OfBytes, UInt16.toNat_or, UInt16.toNat_shiftLeft, UInt8.toNat_toUInt16]
  change (hi.toNat <<< 8) % 2 ^ 16 ||| lo.toNat = _
  rw [hs, ← Nat.shiftLeft_add_eq_or_of_lt hl, Nat.shiftLeft_eq]

theorem toNat_hiByte (w : UInt16) : (hiByte w).toNat = w.toNat / 256 := by
  have := w.toNat_lt
  simp [hiByte, Nat.shiftRight_eq_div_pow]
  omega

/-- Masking with `0xFF` keeps the low byte. -/
theorem and_byte_mask (n : ℕ) : n &&& 0xFF = n % 256 := Nat.and_two_pow_sub_one_eq_mod n 8

/-- A size that is split over two bytes. -/
theorem toNat_sizeBytes {n : ℕ} (h : n < 2 ^ 16) :
    (n >>> 8).toUInt8.toNat * 2 ^ 8 + (n &&& 0xFF).toUInt8.toNat = n := by
  simp [and_byte_mask, Nat.shiftRight_eq_div_pow]
  omega

theorem toUInt8_and_byte_mask (n : ℕ) : (n &&& 0xFF).toUInt8 = n.toUInt8 := by
  apply UInt8.toNat_inj.mp
  simp [and_byte_mask]

theorem toNat_loByte (w : UInt16) : (loByte w).toNat = w.toNat % 256 := by
  simp [loByte, and_byte_mask]

@[simp]
theorem u16OfBytes_hi_lo (w : UInt16) : u16OfBytes (hiByte w) (loByte w) = w := by
  apply UInt16.toNat_inj.mp
  rw [toNat_u16OfBytes, toNat_hiByte, toNat_loByte]
  omega

/-- The word of four bytes, the highest first. -/
def u32OfBytes (b3 b2 b1 b0 : UInt8) : UInt32 :=
  b3.toUInt32 <<< 24 ||| b2.toUInt32 <<< 16 ||| b1.toUInt32 <<< 8 ||| b0.toUInt32

theorem toNat_u32OfBytes (b3 b2 b1 b0 : UInt8) :
    (u32OfBytes b3 b2 b1 b0).toNat =
      b3.toNat * 2 ^ 24 + b2.toNat * 2 ^ 16 + b1.toNat * 2 ^ 8 + b0.toNat := by
  have hb0 := b0.toNat_lt
  have hb1 := b1.toNat_lt
  have hb2 := b2.toNat_lt
  have hb3 := b3.toNat_lt
  have h32 : b3.toNat * 2 ^ 24 ||| b2.toNat * 2 ^ 16 = b3.toNat * 2 ^ 24 + b2.toNat * 2 ^ 16 := by
    rw [Nat.mul_comm b3.toNat, ← Nat.two_pow_add_eq_or_of_lt (by omega)]
  have h321 : b3.toNat * 2 ^ 24 + b2.toNat * 2 ^ 16 ||| b1.toNat * 2 ^ 8 =
      b3.toNat * 2 ^ 24 + b2.toNat * 2 ^ 16 + b1.toNat * 2 ^ 8 := by
    rw [show b3.toNat * 2 ^ 24 + b2.toNat * 2 ^ 16 =
        2 ^ 16 * (b3.toNat * 2 ^ 8 + b2.toNat) by omega,
      ← Nat.two_pow_add_eq_or_of_lt (by omega)]
  have h3210 : b3.toNat * 2 ^ 24 + b2.toNat * 2 ^ 16 + b1.toNat * 2 ^ 8 ||| b0.toNat =
      b3.toNat * 2 ^ 24 + b2.toNat * 2 ^ 16 + b1.toNat * 2 ^ 8 + b0.toNat := by
    rw [show b3.toNat * 2 ^ 24 + b2.toNat * 2 ^ 16 + b1.toNat * 2 ^ 8 =
        2 ^ 8 * (b3.toNat * 2 ^ 16 + b2.toNat * 2 ^ 8 + b1.toNat) by omega,
      ← Nat.two_pow_add_eq_or_of_lt (by omega)]
  rw [← h3210, ← h321, ← h32]
  simp only [u32OfBytes, UInt32.toNat_or, UInt32.toNat_shiftLeft, UInt8.toNat_toUInt32]
  change (b3.toNat <<< 24) % 2 ^ 32 ||| (b2.toNat <<< 16) % 2 ^ 32 ||| (b1.toNat <<< 8) % 2 ^ 32 |||
    b0.toNat = _
  rw [Nat.shiftLeft_eq, Nat.shiftLeft_eq, Nat.shiftLeft_eq, Nat.mod_eq_of_lt (by omega),
    Nat.mod_eq_of_lt (by omega), Nat.mod_eq_of_lt (by omega)]

/-- The number that `w` bits stand for in two's complement. -/
def signed (w u : ℕ) : ℤ :=
  if u < 2 ^ (w - 1) then u else u - 2 ^ w

theorem toInt_toInt16 (v : UInt16) : v.toInt16.toInt = signed 16 v.toNat := by
  have hn : v.toInt16.toInt = if 2 * v.toNat < 2 ^ 16 then (v.toNat : ℤ) else v.toNat - 2 ^ 16 :=
    BitVec.toInt_eq_toNat_cond v.toBitVec
  rw [hn, signed]
  split_ifs <;> omega

theorem toInt_toInt32 (v : UInt32) : v.toInt32.toInt = signed 32 v.toNat := by
  have hn : v.toInt32.toInt = if 2 * v.toNat < 2 ^ 32 then (v.toNat : ℤ) else v.toNat - 2 ^ 32 :=
    BitVec.toInt_eq_toNat_cond v.toBitVec
  rw [hn, signed]
  split_ifs <;> omega

/-- The right shift of a signed word is arithmetic. -/
theorem toInt_shiftRight_eight (v : Int32) : (v >>> 8).toInt = v.toInt / 2 ^ 8 := by
  have hs : (8 : Int32).toBitVec.smod 32 = 8#32 := by decide
  rw [← Int32.toInt_toBitVec, Int32.toBitVec_shiftRight]
  change (v.toBitVec.sshiftRight' ((8 : Int32).toBitVec.smod 32)).toInt = _
  rw [hs, BitVec.toInt_sshiftRight', Int.shiftRight_eq_div_pow]
  rfl

/-- The number that bytes stand for, the lowest first. -/
def littleEndian : List UInt8 → ℕ
  | [] => 0
  | b :: bs => b.toNat + 2 ^ 8 * littleEndian bs

end Pc2Drc.Lib
