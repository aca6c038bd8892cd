import Mathlib.Data.List.Basic

/-! Cutting a list into pieces of bounded length whose last one is marked, and putting a sequence
of marked pieces together again. -/
namespace Pc2Drc.Lib

variable {α : Type*} {n : ℕ}

/-- The pieces of one list. There is always a last one, so the empty list is one empty piece. -/
def pieces (n : ℕ) (l : List α) : List (Bool × List α) :=
  if n = 0 ∨ l.drop n = [] then [(true, l.take n)]
  else (false, l.take n) :: pieces n (l.drop n)
termination_by l.length
decreasing_by
  rename_i h
  rw [not_or, List.drop_eq_nil_iff] at h
  rw [List.length_drop]
  omega

/-- A marked piece ends a list; `cur` is what is there of the list so far. -/
def reassemble (cur : List α) : List (Bool × List α) → Option (List (List α))
  | [] => if cur.isEmpty then some [] else none
  | (true, d) :: rest => (reassemble [] rest).map ((cur ++ d) :: ·)
  | (false, d) :: rest => reassemble (cur ++ d) rest

theorem pieces_last {l : List α} (h : l.drop n = []) : pieces n l = [(true, l.take n)] := by
  rw [pieces, if_pos (Or.inr h)]

theorem pieces_more {l : List α} (hn : n ≠ 0) (h : l.drop n ≠ []) :
    pieces n l = (false, l.take n) :: pieces n (l.drop n) := by
  rw [pieces, if_neg (not_or.mpr ⟨hn, h⟩)]

theorem pieces_ne_nil (l : List α) : pieces n l ≠ [] := by
  rw [pieces]
  split <;> simp

theorem length_pieces_pos (l : List α) : 0 < (pieces n l).length :=
  List.length_pos_of_ne_nil (pieces_ne_nil l)

/-- Only the last piece may be short. -/
theorem pieces_full {l : List α} {x : Bool × List α} (hx : x ∈ pieces n l) :
    x.2.length ≤ n ∧ (x.2.length < n → x.1 = true) := by
  induction l using pieces.induct n with
  | case1 l h =>
    rw [pieces, if_pos h] at hx
    obtain rfl := List.mem_singleton.mp hx
    exact ⟨List.length_take_le n l, fun _ => rfl⟩
  | case2 l h ih =>
    rw [pieces, if_neg h] at hx
    rcases List.mem_cons.mp hx with rfl | hx
    · rw [not_or, List.drop_eq_nil_iff] at h
      simp only [List.length_take]
      omega
    · exact ih hx

/-- Pieces of one list, followed by anything, give the list back. -/
theorem reassemble_pieces (hn : n ≠ 0) (l cur : List α) (rest : List (Bool × List α)) :
    reassemble cur (pieces n l ++ rest) = (reassemble [] rest).map ((cur ++ l) :: ·) := by
  induction l using pieces.induct n generalizing cur with
  | case1 l h =>
    have hdrop : l.drop n = [] := h.resolve_left hn
    have htake : l.take n = l := List.take_of_length_le (List.drop_eq_nil_iff.mp hdrop)
    rw [pieces_last hdrop, htake, List.cons_append, List.nil_append, reassemble]
  | case2 l h ih =>
    rw [pieces, if_neg h, List.cons_append, reassemble, ih, List.append_assoc,
      List.take_append_drop]

/-- Cutting each of several lists is undone by reassembly. -/
theorem reassemble_flatMap (hn : n ≠ 0) (ls : List (List α)) :
    reassemble [] (ls.flatMap (pieces n)) = some ls := by
  induction ls with
  | nil => rfl
  | cons l ls ih => rw [List.flatMap_cons, reassemble_pieces hn, ih, List.nil_append]; rfl

end Pc2Drc.Lib
