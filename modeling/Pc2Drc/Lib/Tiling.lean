import Mathlib.Algebra.Order.Group.Int

/-! Ranges given by their start and their size that lie one after the other. -/
namespace Pc2Drc.Lib

variable {α : Type*} [AddMonoid α] [LE α] {a b n : α} {l : List (α × α)}

/-- The ranges lead from `a` to `b` without a gap or an overlap, and none has a negative size. -/
def Tiles : α → List (α × α) → α → Prop
  | a, [], b => a = b
  | a, r :: l, b => r.1 = a ∧ 0 ≤ r.2 ∧ Tiles (a + r.2) l b

theorem Tiles.snoc (h : Tiles a l b) (hn : 0 ≤ n) : Tiles a (l ++ [(b, n)]) (b + n) := by
  induction l generalizing a with
  | nil =>
    obtain rfl : a = b := h
    exact ⟨rfl, hn, rfl⟩
  | cons r l ih =>
    obtain ⟨hr, hsize, hl⟩ := h
    exact ⟨hr, hsize, ih hl⟩

theorem Tiles.le {a b : ℤ} {l : List (ℤ × ℤ)} (h : Tiles a l b) : a ≤ b := by
  induction l generalizing a with
  | nil => exact le_of_eq h
  | cons r l ih =>
    obtain ⟨-, hsize, hl⟩ := h
    have hle := ih hl
    omega

/-- Pieces cut along the ranges are, put together, what lies between their ends. -/
theorem Tiles.flatMap_extract {β : Type*} {a b : ℤ} {l : List (ℤ × ℤ)} (h : Tiles a l b)
    (ha : 0 ≤ a) (buf : List β) :
    l.flatMap (fun r => (buf.drop r.1.toNat).take r.2.toNat) =
      (buf.drop a.toNat).take (b - a).toNat := by
  induction l generalizing a with
  | nil =>
    obtain rfl : a = b := h
    simp
  | cons r l ih =>
    obtain ⟨rfl, hsize, hl⟩ := h
    have hle := hl.le
    have hdrop : (r.1 + r.2).toNat = r.1.toNat + r.2.toNat := by omega
    have htake : (b - r.1).toNat = r.2.toNat + (b - (r.1 + r.2)).toNat := by omega
    rw [List.flatMap_cons, ih hl (by omega), htake, List.take_add, List.drop_drop, hdrop]

end Pc2Drc.Lib
