import Mathlib.Data.List.Basic

/-! A server that takes jobs and answers them in the order in which they came. -/
namespace Pc2Drc.Lib

variable {J O : Type*} {f : J → Option O} {submitted waiting : List J} {served : List O} {j : J}
  {x : O}

/-- The submitted jobs, the answers so far and the jobs that still wait. -/
inductive Served (f : J → Option O) : List J → List O → List J → Prop
  | start : Served f [] [] []
  | submit {submitted waiting : List J} {served : List O} (j : J) :
      Served f submitted served waiting → Served f (submitted ++ [j]) served (waiting ++ [j])
  | serve {submitted waiting : List J} {served : List O} {j : J} {x : O} :
      Served f submitted served (j :: waiting) → f j = some x →
        Served f submitted (served ++ [x]) waiting

/-- Every job is answered once, in order, or still waits. -/
theorem Served.split (h : Served f submitted served waiting) :
    ∃ done, submitted = done ++ waiting ∧ served.map some = done.map f := by
  induction h with
  | start => exact ⟨[], rfl, rfl⟩
  | submit j _ ih =>
    obtain ⟨done, hsplit, hserved⟩ := ih
    exact ⟨done, by rw [hsplit, List.append_assoc], hserved⟩
  | @serve _ _ _ j _ _ hx ih =>
    obtain ⟨done, hsplit, hserved⟩ := ih
    refine ⟨done ++ [j], by rw [hsplit, List.append_cons], ?_⟩
    rw [List.map_append, List.map_append, hserved, List.map_singleton, List.map_singleton, hx]

theorem Served.length_add (h : Served f submitted served waiting) :
    served.length + waiting.length = submitted.length := by
  obtain ⟨done, hsplit, hserved⟩ := h.split
  have hlen := congrArg List.length hserved
  rw [List.length_map, List.length_map] at hlen
  rw [hsplit, List.length_append, hlen]

theorem Served.answers (h : Served f submitted served waiting) :
    served.map some = (submitted.take served.length).map f := by
  obtain ⟨done, hsplit, hserved⟩ := h.split
  have hlen := congrArg List.length hserved
  rw [List.length_map, List.length_map] at hlen
  rw [hserved, hsplit, hlen, List.take_left]

/-- The latest answer is that to the job of its number. -/
theorem Served.last {i : ℕ} (h : Served f submitted served waiting) (hi : served.length = i + 1) :
    ∃ j x, submitted[i]? = some j ∧ served.getLast? = some x ∧ f j = some x := by
  obtain ⟨done, rfl, hserved⟩ := h.split
  have hlen := congrArg List.length hserved
  rw [List.length_map, List.length_map, hi] at hlen
  obtain rfl | ⟨init, j, rfl⟩ := List.eq_nil_or_concat' done
  · cases hlen
  · obtain rfl | ⟨front, x, rfl⟩ := List.eq_nil_or_concat' served
    · cases hi
    · rw [List.map_append, List.map_append] at hserved
      obtain ⟨-, hlast⟩ := List.append_inj' hserved rfl
      refine ⟨j, x, ?_, List.getLast?_concat, (List.singleton_inj.mp hlast).symm⟩
      rw [List.length_append, List.length_singleton] at hlen
      rw [List.append_assoc, List.getElem?_append_right (by omega), Nat.succ.inj hlen,
        Nat.sub_self]
      rfl

end Pc2Drc.Lib
