import Mathlib.Data.BitVec
import Mathlib.Logic.Function.Iterate

/-! A feedback shift register: the remainder of a cyclic redundancy check, taken lowest bit first.
It is linear over exclusive or, and loses nothing when the mask has its top bit. -/
namespace Pc2Drc.Lib.ShiftRegister

variable {w : ℕ} (mask : BitVec w)

/-- One shift with feedback. -/
def shift (s : BitVec w) : BitVec w :=
  if s.getLsbD 0 then (s >>> 1) ^^^ mask else s >>> 1

/-- The word with bit `k` as given and no other. -/
def single (b : Bool) (k : ℕ) : BitVec w :=
  if b then BitVec.twoPow w k else 0

/-- The register after `n` bits of the input, each added at the bottom before its shift. -/
def run (s : BitVec w) (f : ℕ → Bool) : ℕ → BitVec w
  | 0 => s
  | n + 1 => shift mask (run s f n ^^^ single (f n) 0)

/-- The first `n` bits of the input as one word. -/
def wordOf (f : ℕ → Bool) : ℕ → BitVec w
  | 0 => 0
  | n + 1 => wordOf f n ^^^ single (f n) n

theorem getLsbD_single {b : Bool} {k i : ℕ} (hi : i < w) :
    (single b k : BitVec w).getLsbD i = (b && decide (i = k)) := by
  cases b with
  | false => simp [single]
  | true => simp [single, hi, eq_comm]

theorem single_xor (a b : Bool) (k : ℕ) :
    (single a k : BitVec w) ^^^ single b k = single (a ^^ b) k := by
  cases a <;> cases b <;> simp [single]

theorem getLsbD_wordOf {f : ℕ → Bool} {n i : ℕ} (hi : i < w) :
    (wordOf f n : BitVec w).getLsbD i = (decide (i < n) && f i) := by
  induction n with
  | zero => simp [wordOf]
  | succ n ih =>
    rw [wordOf, BitVec.getLsbD_xor, ih, getLsbD_single hi]
    by_cases hin : i = n
    · subst hin
      simp
    · have hlt : i < n + 1 ↔ i < n := by omega
      simp [hin, hlt]

theorem shift_xor (a b : BitVec w) : shift mask (a ^^^ b) = shift mask a ^^^ shift mask b := by
  have hcancel (x y : BitVec w) : x ^^^ mask ^^^ (y ^^^ mask) = x ^^^ y := by
    rw [BitVec.xor_comm y, ← BitVec.xor_assoc, BitVec.xor_assoc x, BitVec.xor_self,
      BitVec.xor_zero]
  unfold shift
  rw [BitVec.getLsbD_xor, BitVec.ushiftRight_xor_distrib]
  cases a.getLsbD 0 <;> cases b.getLsbD 0
  · simp
  · simp [BitVec.xor_assoc]
  · simp [BitVec.xor_assoc, BitVec.xor_comm mask]
  · simp [hcancel]

theorem shift_zero : shift mask 0 = 0 := by
  simp [shift]

theorem iterate_shift_xor (n : ℕ) (a b : BitVec w) :
    (shift mask)^[n] (a ^^^ b) = (shift mask)^[n] a ^^^ (shift mask)^[n] b := by
  induction n generalizing a b with
  | zero => rfl
  | succ n ih => rw [Function.iterate_succ_apply, shift_xor, ih]; rfl

/-- A bit moves down until it is at the bottom. -/
theorem iterate_shift_single {k : ℕ} (hk : k < w) (b : Bool) :
    (shift mask)^[k] (single b k) = single b 0 := by
  induction k with
  | zero => rfl
  | succ k ih =>
    have hstep : shift mask (single b (k + 1)) = single b k := by
      have hlow : (single b (k + 1) : BitVec w).getLsbD 0 = false := by
        rw [getLsbD_single (by omega)]
        simp
      rw [shift, hlow, if_neg Bool.false_ne_true]
      apply BitVec.eq_of_getLsbD_eq
      intro i hi
      rw [BitVec.getLsbD_ushiftRight, getLsbD_single hi]
      by_cases hin : 1 + i < w
      · rw [getLsbD_single hin]
        simp [Nat.add_comm 1]
      · rw [BitVec.getLsbD_of_ge _ _ (by omega)]
        simp
        omega
    rw [Function.iterate_succ_apply, hstep]
    exact ih (by omega)

theorem run_xor (s t : BitVec w) (f g : ℕ → Bool) (n : ℕ) :
    run mask s f n ^^^ run mask t g n = run mask (s ^^^ t) (fun i => f i ^^ g i) n := by
  induction n with
  | zero => rfl
  | succ n ih =>
    rw [run, run, run, ← shift_xor, ← ih, ← single_xor]
    congr 1
    ac_rfl

theorem run_add (s : BitVec w) (f : ℕ → Bool) (m n : ℕ) :
    run mask s f (m + n) = run mask (run mask s f m) (fun i => f (m + i)) n := by
  induction n with
  | zero => rfl
  | succ n ih => rw [← Nat.add_assoc, run, run, ih]

/-- Bits of one register width may be added all at once. -/
theorem run_eq_iterate {n : ℕ} (hn : n ≤ w) (s : BitVec w) (f : ℕ → Bool) :
    run mask s f n = (shift mask)^[n] (s ^^^ wordOf f n) := by
  induction n with
  | zero => simp [run, wordOf]
  | succ n ih =>
    rw [run, ih (by omega), wordOf, ← BitVec.xor_assoc, Function.iterate_succ_apply',
      iterate_shift_xor mask n (s ^^^ wordOf f n), iterate_shift_single mask (by omega)]

theorem run_silent (s : BitVec w) {f : ℕ → Bool} {n : ℕ} (h : ∀ i < n, f i = false) :
    run mask s f n = (shift mask)^[n] s := by
  induction n with
  | zero => rfl
  | succ n ih =>
    have hf : f n = false := h n (by omega)
    rw [run, ih (fun i hi => h i (by omega)), hf, Function.iterate_succ_apply']
    simp [single]

section Lossless

variable {mask} (htop : mask.getLsbD (w - 1) = true)
include htop

/-- A set low bit shows in the top bit of the shifted word. -/
theorem shift_eq_zero {s : BitVec w} : shift mask s = 0 ↔ s = 0 := by
  constructor
  · intro h
    have hw : 0 < w := by
      by_contra hw
      rw [BitVec.getLsbD_of_ge _ _ (by omega)] at htop
      exact Bool.false_ne_true htop
    have hlow : s.getLsbD 0 = false := by
      by_contra hlow
      rw [shift, if_pos (by simpa using hlow)] at h
      have hbit := congrArg (fun v : BitVec w => v.getLsbD (w - 1)) h
      simp only [BitVec.getLsbD_xor, BitVec.getLsbD_ushiftRight, htop] at hbit
      rw [BitVec.getLsbD_of_ge s _ (by omega)] at hbit
      simp at hbit
    rw [shift, hlow, if_neg Bool.false_ne_true] at h
    apply BitVec.eq_of_getLsbD_eq
    intro i hi
    cases i with
    | zero => simpa using hlow
    | succ i =>
      have hbit := congrArg (fun v : BitVec w => v.getLsbD i) h
      simpa [BitVec.getLsbD_ushiftRight, Nat.add_comm] using hbit
  · rintro rfl
    exact shift_zero mask

theorem iterate_shift_eq_zero {s : BitVec w} (n : ℕ) : (shift mask)^[n] s = 0 ↔ s = 0 := by
  induction n generalizing s with
  | zero => rfl
  | succ n ih => rw [Function.iterate_succ_apply, ih, shift_eq_zero htop]

/-- A burst no longer than the register leaves a remainder. -/
theorem run_burst_ne_zero {f : ℕ → Bool} {n p i : ℕ} (hi : i < n) (hf : f i = true)
    (hburst : ∀ j < n, f j = true → p ≤ j ∧ j < p + w) : run mask 0 f n ≠ 0 := by
  -- Before the burst, the burst itself, and what is left after it.
  obtain ⟨hpi, hip⟩ := hburst i hi hf
  obtain ⟨m, hm, hmw, hmn⟩ : ∃ m, i < p + m ∧ m ≤ w ∧ (p + m = n ∨ m = w ∧ p + m ≤ n) := by
    by_cases hfits : p + w ≤ n
    · exact ⟨w, hip, le_refl w, Or.inr ⟨rfl, hfits⟩⟩
    · exact ⟨n - p, by omega, by omega, Or.inl (by omega)⟩
  have hsplit : n = p + m + (n - (p + m)) := by omega
  have hbefore : run mask 0 f p = 0 := by
    rw [run_silent mask 0 (fun j hj => ?_), iterate_shift_eq_zero htop]
    by_contra hset
    have := hburst j (by omega) (by simpa using hset)
    omega
  have hafter : ∀ j < n - (p + m), f (p + m + j) = false := by
    intro j hj
    by_contra hset
    have := hburst (p + m + j) (by omega) (by simpa using hset)
    omega
  rw [hsplit, run_add, run_silent mask _ hafter, run_add, hbefore, run_eq_iterate mask hmw]
  rw [Ne, iterate_shift_eq_zero htop, iterate_shift_eq_zero htop]
  intro hzero
  have hbit := congrArg (fun v : BitVec w => v.getLsbD (i - p)) hzero
  have hoff : p + (i - p) = i := by omega
  simp only [BitVec.getLsbD_xor] at hbit
  rw [getLsbD_wordOf (by omega), hoff, hf] at hbit
  simp at hbit
  omega

end Lossless

end Pc2Drc.Lib.ShiftRegister
