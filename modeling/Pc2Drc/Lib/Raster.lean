import Mathlib.Data.Int.ConditionallyCompleteOrder
import Mathlib.Order.Interval.Set.Basic
import Mathlib.Tactic.Linarith
import Mathlib.Tactic.Ring

/-! Rectangles of bytes in a buffer: rows of one width that are a stride apart. -/
namespace Pc2Drc.Lib

/-- `rows` rows of `width` bytes; the first starts at `start`, each next one `stride` later. -/
def raster (start stride rows width : ℤ) : Set ℤ :=
  {i | ∃ r x, 0 ≤ r ∧ r < rows ∧ 0 ≤ x ∧ x < width ∧ i = start + r * stride + x}

variable {start stride rows width lo hi : ℤ}

theorem raster_subset (hs : 0 ≤ stride) (hlo : lo ≤ start)
    (hhi : start + (rows - 1) * stride + width ≤ hi) :
    raster start stride rows width ⊆ Set.Ico lo hi := by
  rintro i ⟨r, x, hr, hr', hx, hx', rfl⟩
  have hfirst : 0 ≤ r * stride := Int.mul_nonneg hr hs
  have hlast : r * stride ≤ (rows - 1) * stride := Int.mul_le_mul_of_nonneg_right (by omega) hs
  exact ⟨by omega, by omega⟩

/-- A raster with at least one byte lies in an interval exactly when its corners do. -/
theorem raster_subset_iff (hs : 0 ≤ stride) (hr : 0 < rows) (hw : 0 < width) :
    raster start stride rows width ⊆ Set.Ico lo hi ↔
      lo ≤ start ∧ start + (rows - 1) * stride + width ≤ hi := by
  constructor
  · intro h
    have hfirst : start ∈ raster start stride rows width :=
      ⟨0, 0, by omega, hr, by omega, hw, by omega⟩
    have hlast : start + (rows - 1) * stride + (width - 1) ∈ raster start stride rows width :=
      ⟨rows - 1, width - 1, by omega, by omega, by omega, by omega, rfl⟩
    have h1 := (h hfirst).1
    have h2 := (h hlast).2
    exact ⟨h1, by omega⟩
  · rintro ⟨hlo, hhi⟩
    exact raster_subset hs hlo hhi

/-- The same rows from the last one up. -/
theorem raster_flip :
    raster (start + (rows - 1) * stride) (-stride) rows width = raster start stride rows width := by
  ext i
  constructor
  · rintro ⟨r, x, hr, hr', hx, hx', rfl⟩
    exact ⟨rows - 1 - r, x, by omega, by omega, hx, hx', by ring⟩
  · rintro ⟨r, x, hr, hr', hx, hx', rfl⟩
    exact ⟨rows - 1 - r, x, by omega, by omega, hx, hx', by ring⟩

end Pc2Drc.Lib
