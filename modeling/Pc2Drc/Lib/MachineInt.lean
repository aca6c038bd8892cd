import Mathlib.Algebra.Group.Int.Defs
import Mathlib.Data.Int.Order.Basic

/-! Arithmetic of 32-bit signed integers, where overflow and division by zero have no meaning. -/
namespace Pc2Drc.Lib

inductive IntFault
  | overflow
  | divisionByZero
  deriving DecidableEq, Repr

def FitsInt (n : ℤ) : Prop := -2 ^ 31 ≤ n ∧ n < 2 ^ 31

instance : DecidablePred FitsInt := fun n =>
  inferInstanceAs (Decidable (-2 ^ 31 ≤ n ∧ n < 2 ^ 31))

/-- An expression of type `int` with the exact value `n`. -/
def int (n : ℤ) : Except IntFault ℤ := if FitsInt n then .ok n else .error .overflow

/-- Division of two `int`s; it truncates toward zero. -/
def divInt (a b : ℤ) : Except IntFault ℤ :=
  if b = 0 then .error .divisionByZero else int (a.tdiv b)

variable {a b n : ℤ}

theorem int_ok (h : FitsInt n) : int n = .ok n := if_pos h

theorem int_overflow (h : ¬ FitsInt n) : int n = .error .overflow := if_neg h

theorem divInt_ok (hb : b ≠ 0) (h : FitsInt (a.tdiv b)) : divInt a b = .ok (a.tdiv b) := by
  rw [divInt, if_neg hb, int_ok h]

/-- A quotient of two numbers that are not negative is no larger than the dividend. -/
theorem divInt_of_nonneg (ha : 0 ≤ a) (hfit : FitsInt a) (hb : 0 < b) :
    divInt a b = .ok (a / b) := by
  have hdiv : a.tdiv b = a / b := Int.tdiv_eq_ediv_of_nonneg ha
  have hnonneg : 0 ≤ a / b := Int.ediv_nonneg ha (Int.le_of_lt hb)
  have hle : a / b ≤ a := Int.ediv_le_self b ha
  rw [divInt_ok (Int.ne_of_gt hb), hdiv]
  rw [hdiv]
  have hlt := hfit.2
  constructor <;> omega

theorem tdiv_two (n : ℤ) : n.tdiv 2 = if 0 ≤ n then n / 2 else -(-n / 2) := by
  split
  · exact Int.tdiv_eq_ediv_of_nonneg ‹_›
  · rw [← Int.neg_inj, ← Int.neg_tdiv, Int.neg_neg]
    exact Int.tdiv_eq_ediv_of_nonneg (by omega)

end Pc2Drc.Lib
