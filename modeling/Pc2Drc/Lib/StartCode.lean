import Mathlib.Data.List.Infix
import Mathlib.Data.UInt

/-! Emulation prevention: a byte 3 is put in wherever two zero bytes would be followed by a byte
up to 3, so that no start code appears inside the payload, and the reader takes it out again. -/
namespace Pc2Drc.Lib

/-- The escaped form of what follows the output bytes `p` and `q`. -/
def escapeFrom (p q : UInt8) : List UInt8 → List UInt8
  | [] => []
  | b :: bs =>
    if b ≤ 3 ∧ p = 0 ∧ q = 0 then 3 :: b :: escapeFrom 3 b bs
    else b :: escapeFrom q b bs

/-- The first two bytes are never preceded by two others. -/
def escape : List UInt8 → List UInt8
  | [] => []
  | [a] => [a]
  | a :: b :: bs => a :: b :: escapeFrom a b bs

/-- The reader's rule: a 3 after two or more zeros is dropped, and the count of zeros starts
again. -/
def unescapeFrom (zeros : ℕ) : List UInt8 → List UInt8
  | [] => []
  | b :: bs =>
    if 2 ≤ zeros ∧ b = 3 then unescapeFrom 0 bs
    else b :: unescapeFrom (if b = 0 then zeros + 1 else 0) bs

def unescape : List UInt8 → List UInt8 := unescapeFrom 0

/-- No three bytes in a row are 00 00 00, 00 00 01 or 00 00 02. -/
def NoStartCode (l : List UInt8) : Prop :=
  ∀ c : UInt8, c ≤ 2 → ¬ [0, 0, c] <:+: l

/-- How many zeros the output ends in, as far as its last two bytes tell. -/
def zerosAt (p q : UInt8) : ℕ :=
  if q = 0 then if p = 0 then 2 else 1 else 0

theorem zerosAt_eq_two {p q : UInt8} : 2 ≤ zerosAt p q ↔ p = 0 ∧ q = 0 := by
  unfold zerosAt
  split_ifs with hq hp <;> simp_all

theorem zerosAt_le_two (p q : UInt8) : zerosAt p q ≤ 2 := by
  unfold zerosAt
  split_ifs <;> omega

theorem zerosAt_three_le_one (b : UInt8) : zerosAt 3 b ≤ 1 := by
  unfold zerosAt
  split_ifs with hb h3
  · exact absurd h3 (by decide)
  · exact le_refl 1
  · exact Nat.zero_le 1

/-- The reader's count after a byte, unless it grows past two. -/
theorem zerosAt_next {p q b : UInt8} (h : ¬ (b ≤ 3 ∧ p = 0 ∧ q = 0)) :
    (if b = 0 then zerosAt p q + 1 else 0) = zerosAt q b := by
  by_cases hb : b = 0
  · subst hb
    have hpq : ¬ (p = 0 ∧ q = 0) := fun hz => h ⟨by decide, hz⟩
    unfold zerosAt
    split_ifs <;> simp_all
  · simp [zerosAt, hb]

theorem zerosAt_step (p q b : UInt8) : zerosAt q b ≤ zerosAt p q + 1 := by
  unfold zerosAt
  split_ifs <;> omega

theorem unescapeFrom_escapeFrom (p q : UInt8) (bs : List UInt8) :
    unescapeFrom (zerosAt p q) (escapeFrom p q bs) = bs := by
  induction bs generalizing p q with
  | nil => rfl
  | cons b bs ih =>
    by_cases h : b ≤ 3 ∧ p = 0 ∧ q = 0
    · have hb : (if b = 0 then 0 + 1 else 0) = zerosAt 3 b := by
        simp [zerosAt]
      rw [escapeFrom, if_pos h, unescapeFrom, if_pos ⟨zerosAt_eq_two.mpr h.2, rfl⟩, unescapeFrom,
        if_neg (by omega), hb, ih]
    · have hdrop : ¬ (2 ≤ zerosAt p q ∧ b = 3) := by
        rintro ⟨hz, rfl⟩
        exact h ⟨le_refl 3, zerosAt_eq_two.mp hz⟩
      rw [escapeFrom, if_neg h, unescapeFrom, if_neg hdrop, zerosAt_next h, ih]

theorem unescape_escape (bs : List UInt8) : unescape (escape bs) = bs := by
  cases bs with
  | nil => rfl
  | cons a bs =>
    cases bs with
    | nil => simp [unescape, escape, unescapeFrom]
    | cons b bs =>
      have hz : (if b = 0 then (if a = 0 then 0 + 1 else 0) + 1 else 0) = zerosAt a b := by
        by_cases ha : a = 0 <;> simp [zerosAt, ha]
      have hdrop : ¬ (2 ≤ (if a = 0 then 0 + 1 else 0) ∧ b = 3) := by
        split_ifs <;> omega
      rw [unescape, escape, unescapeFrom, if_neg (by omega), unescapeFrom, if_neg hdrop, hz,
        unescapeFrom_escapeFrom]

/-- Two bytes alone are no start code, and a byte is checked against the two before it. -/
theorem noStartCode_cons {p q r : UInt8} {l : List UInt8} (h : ¬ (p = 0 ∧ q = 0 ∧ r ≤ 2))
    (hl : NoStartCode (q :: r :: l)) : NoStartCode (p :: q :: r :: l) := by
  intro c hc hin
  rcases List.infix_cons_iff.mp hin with hpre | hin
  · simp only [List.cons_prefix_cons, List.nil_prefix, and_true] at hpre
    obtain ⟨rfl, rfl, rfl⟩ := hpre
    exact h ⟨rfl, rfl, hc⟩
  · exact hl c hc hin

theorem noStartCode_of_short {l : List UInt8} (h : l.length ≤ 2) : NoStartCode l := by
  intro c _ hin
  have := hin.length_le
  simp only [List.length_cons, List.length_nil] at this
  omega

theorem noStartCode_escapeFrom (p q : UInt8) (bs : List UInt8) :
    NoStartCode (p :: q :: escapeFrom p q bs) := by
  induction bs generalizing p q with
  | nil => exact noStartCode_of_short (le_refl 2)
  | cons b bs ih =>
    by_cases h : b ≤ 3 ∧ p = 0 ∧ q = 0
    · rw [escapeFrom, if_pos h]
      -- The inserted byte is neither a zero nor the end of a start code.
      refine noStartCode_cons (fun hz => absurd hz.2.2 (by decide)) ?_
      exact noStartCode_cons (fun hz => absurd hz.2.1 (by decide)) (ih 3 b)
    · rw [escapeFrom, if_neg h]
      refine noStartCode_cons ?_ (ih q b)
      rintro ⟨hp, hq, hb⟩
      exact h ⟨UInt8.le_trans hb (by decide), hp, hq⟩

theorem noStartCode_escape (bs : List UInt8) : NoStartCode (escape bs) := by
  cases bs with
  | nil => exact noStartCode_of_short (Nat.zero_le 2)
  | cons a bs =>
    cases bs with
    | nil => exact noStartCode_of_short (by simp [escape])
    | cons b bs => exact noStartCode_escapeFrom a b bs

/-- Between two inserted bytes the payload brings two zeros. -/
theorem length_escapeFrom (p q : UInt8) (bs : List UInt8) :
    2 * (escapeFrom p q bs).length ≤ 3 * bs.length + zerosAt p q := by
  induction bs generalizing p q with
  | nil => exact Nat.zero_le _
  | cons b bs ih =>
    by_cases h : b ≤ 3 ∧ p = 0 ∧ q = 0
    · have hrest := ih 3 b
      have hthree := zerosAt_three_le_one b
      have htwo := zerosAt_eq_two.mpr h.2
      simp only [escapeFrom, if_pos h, List.length_cons]
      omega
    · have hrest := ih q b
      have hstep := zerosAt_step p q b
      simp only [escapeFrom, if_neg h, List.length_cons]
      omega

theorem length_escape (bs : List UInt8) : (escape bs).length ≤ bs.length + bs.length / 2 := by
  cases bs with
  | nil => exact Nat.zero_le _
  | cons a bs =>
    cases bs with
    | nil => simp [escape]
    | cons b bs =>
      have hrest := length_escapeFrom a b bs
      have htwo := zerosAt_le_two a b
      simp only [escape, List.length_cons]
      omega

-- The bound is met by a run of zeros of odd length.
example : (escape [0, 0, 0, 0, 0]).length = 5 + 5 / 2 := by decide

end Pc2Drc.Lib
