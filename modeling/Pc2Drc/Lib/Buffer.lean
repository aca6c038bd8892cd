import Pc2Drc.Lib.Memory

/-! Byte arrays of a fixed size that are written from the start, and the bit fields of a byte. -/
namespace Pc2Drc.Lib

structure Buffer (n : ℕ) where
  bytes : List UInt8
  length_bytes : bytes.length = n
  deriving DecidableEq

namespace Buffer

variable {n : ℕ}

/-- `memset` to zero. -/
def zeros (n : ℕ) : Buffer n := ⟨List.replicate n 0, List.length_replicate⟩

/-- The byte at an index the caller knows to be inside. -/
def get (b : Buffer n) (i : ℕ) : UInt8 := b.bytes.getD i 0

def set (b : Buffer n) (i : ℕ) (v : UInt8) : Buffer n :=
  ⟨b.bytes.set i v, by simp [b.length_bytes]⟩

/-- `*dst = v` for a pointer that is kept as an index. -/
def store (b : Buffer n) (i : ℕ) (v : UInt8) : Except Fault (Buffer n) :=
  if i < n then .ok (b.set i v) else .error .overrun

def memcpy (b : Buffer n) (off : ℕ) (src : List UInt8) : Except Fault (Buffer n) :=
  if h : off + src.length ≤ n then
    .ok ⟨blit b.bytes off src, by rw [length_blit, b.length_bytes]; rwa [b.length_bytes]⟩
  else .error .overrun

@[ext]
theorem ext {b b' : Buffer n} (h : b.bytes = b'.bytes) : b = b' := by
  cases b
  cases b'
  cases h
  rfl

@[simp]
theorem bytes_set (b : Buffer n) (i : ℕ) (v : UInt8) : (b.set i v).bytes = b.bytes.set i v := rfl

theorem memcpy_ok {b : Buffer n} {off : ℕ} {src : List UInt8} (h : off + src.length ≤ n) :
    ∃ b', b.memcpy off src = .ok b' := by
  rw [memcpy, dif_pos h]
  exact ⟨_, rfl⟩

theorem memcpy_eq_ok {b b' : Buffer n} {off : ℕ} {src : List UInt8} :
    b.memcpy off src = .ok b' ↔ off + src.length ≤ n ∧ b'.bytes = blit b.bytes off src := by
  unfold memcpy
  split
  · rename_i h
    simp only [Except.ok.injEq, h, true_and]
    exact ⟨fun he => he ▸ rfl, fun he => Buffer.ext he.symm⟩
  · rename_i h
    simp [h]

theorem get_set_self {b : Buffer n} {i : ℕ} {v : UInt8} (h : i < n) : (b.set i v).get i = v := by
  have hi : i < b.bytes.length := by rw [b.length_bytes]; exact h
  rw [get, bytes_set, List.getD_eq_getElem?_getD, List.getElem?_set_self hi, Option.getD_some]

theorem get_set_of_ne {b : Buffer n} {i j : ℕ} {v : UInt8} (h : i ≠ j) :
    (b.set i v).get j = b.get j := by
  rw [get, bytes_set, List.getD_eq_getElem?_getD, List.getElem?_set_ne h,
    ← List.getD_eq_getElem?_getD, get]

theorem store_eq_ok {b b' : Buffer n} {i : ℕ} {v : UInt8} :
    b.store i v = .ok b' ↔ i < n ∧ b' = b.set i v := by
  unfold store
  split <;> simp_all [eq_comm]

/-- A copy is a store of its first byte and a copy of the rest. -/
theorem memcpy_cons (b : Buffer n) (i : ℕ) (v : UInt8) (vs : List UInt8) :
    b.memcpy i (v :: vs) = (b.store i v >>= fun b' => b'.memcpy (i + 1) vs) := by
  by_cases hi : i < n
  · rw [store, if_pos hi]
    change b.memcpy i (v :: vs) = (b.set i v).memcpy (i + 1) vs
    have hblit : blit (b.bytes.set i v) (i + 1) vs = blit b.bytes i (v :: vs) :=
      blit_set (by rwa [b.length_bytes])
    by_cases hn : i + (v :: vs).length ≤ n
    · have hn' : i + 1 + vs.length ≤ n := by simpa [Nat.add_assoc, Nat.add_comm 1] using hn
      rw [memcpy, memcpy, dif_pos hn, dif_pos hn']
      simp only [bytes_set, hblit]
    · have hn' : ¬ i + 1 + vs.length ≤ n := by simpa [Nat.add_assoc, Nat.add_comm 1] using hn
      rw [memcpy, memcpy, dif_neg hn, dif_neg hn']
  · have hn : ¬ i + (v :: vs).length ≤ n := by simp only [List.length_cons]; omega
    rw [store, if_neg hi, memcpy, dif_neg hn]
    rfl

theorem memcpy_nil {b : Buffer n} {i : ℕ} (h : i ≤ n) : b.memcpy i [] = .ok b := by
  rw [memcpy_eq_ok]
  exact ⟨by simpa using h, by simp [blit]⟩

end Buffer

/-- The bits of a byte from `b` up to but not including `e`. -/
def bitMask (b e : ℕ) : UInt8 := (((1 <<< e) - 1) ^^^ ((1 <<< b) - 1)).toUInt8

def insertBits (v toInsert : UInt8) (b e : ℕ) : UInt8 :=
  (v &&& ~~~bitMask b e) ||| ((toInsert <<< b.toUInt8) &&& bitMask b e)

end Pc2Drc.Lib
