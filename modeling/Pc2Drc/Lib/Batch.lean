import Mathlib.Data.List.Infix
import Pc2Drc.Lib.Run

/-! A loop that polls a batch of numbers and handles them one at a time, while other steps change
what the numbers stand for. -/
namespace Pc2Drc.Lib

/-- A system with a table of numbered objects and the part of a batch that is still to be handled.
A poll replaces the batch and leaves the table; nothing else adds to the batch. -/
structure BatchLoop (σ α ω ε : Type*) where
  step : σ → α → ω → σ → Prop
  init : σ
  table : σ → ℕ → Option ε
  batch : σ → List ℕ
  polled : α → Option (List ℕ)
  batch_init : batch init = []
  poll : ∀ {s a o t numbers}, step s a o t → polled a = some numbers →
    batch t = numbers ∧ table t = table s
  shrink : ∀ {s a o t}, step s a o t → polled a = none → batch t ⊆ batch s

namespace BatchLoop

variable {σ α ω ε : Type*} (B : BatchLoop σ α ω ε) {tr : List (α × ω)} {s t : σ} {a : α} {o : ω}
  {n : ℕ} {e : ε}

def Run (tr : List (α × ω)) (s : σ) : Prop := Steps B.step B.init tr s

/-- The latest poll of a trace reported `n` while it stood for `e`. -/
def Reported (tr : List (α × ω)) (n : ℕ) (e : ε) : Prop :=
  ∃ pre a o mid numbers s, tr = pre ++ (a, o) :: mid ∧ B.polled a = some numbers ∧
    (∀ x ∈ mid, B.polled x.1 = none) ∧ B.Run pre s ∧ n ∈ numbers ∧ B.table s n = some e

/-- A number that is still to be handled comes to stand for something new. -/
def Reuses (s t : σ) : Prop :=
  ∃ n ∈ B.batch t, ∃ e, B.table t n = some e ∧ B.table s n ≠ some e

variable {B}

theorem Reported.snoc (h : B.Reported tr n e) (ha : B.polled a = none) :
    B.Reported (tr ++ [(a, o)]) n e := by
  obtain ⟨pre, b, o', mid, numbers, s, rfl, hpoll, hmid, hrun, hn, he⟩ := h
  refine ⟨pre, b, o', mid ++ [(a, o)], numbers, s, by simp, hpoll, ?_, hrun, hn, he⟩
  intro x hx
  rcases List.mem_append.mp hx with hx | hx
  · exact hmid x hx
  · rw [List.mem_singleton.mp hx]
    exact ha

/-- Where no step reuses a waiting number, what a waiting number stands for was there when it was
reported. -/
theorem reported_of_no_reuse (h : B.Run tr s)
    (hno : ∀ pre a o u v, pre ++ [(a, o)] <+: tr → B.Run pre u → B.step u a o v →
      B.polled a = none → ¬ B.Reuses u v) :
    ∀ n ∈ B.batch s, ∀ e, B.table s n = some e → B.Reported tr n e := by
  induction h with
  | refl =>
    intro n hn
    rw [B.batch_init] at hn
    cases hn
  | @snoc tr s t a o hrun hstep ih =>
    have hold := ih fun pre a o u v hp => hno pre a o u v (hp.trans (List.prefix_append _ _))
    intro n hn e he
    cases hpoll : B.polled a with
    | some numbers =>
      obtain ⟨hbatch, htable⟩ := B.poll hstep hpoll
      rw [hbatch] at hn
      rw [htable] at he
      exact ⟨tr, a, o, [], numbers, s, rfl, hpoll, by simp, hrun, hn, he⟩
    | none =>
      have hsame : B.table s n = some e := by
        by_contra hnew
        exact hno tr a o s t (List.prefix_refl _) hrun hstep hpoll ⟨n, hn, e, he, hnew⟩
      exact (hold n (B.shrink hstep hpoll hn) e hsame).snoc hpoll

end BatchLoop

end Pc2Drc.Lib
