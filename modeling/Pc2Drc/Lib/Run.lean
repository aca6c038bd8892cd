import Mathlib.Data.List.Induction

/-! Finite runs of a labelled transition relation, recorded with what each step shows. -/
namespace Pc2Drc.Lib

variable {σ α ω : Type*} {step : σ → α → ω → σ → Prop} {s t u : σ} {a : α} {o : ω}
  {tr tr' : List (α × ω)}

/-- A run from `s`, oldest step first; it grows at its end, so a trace is its own history. -/
inductive Steps (step : σ → α → ω → σ → Prop) (s : σ) : List (α × ω) → σ → Prop
  | refl : Steps step s [] s
  | snoc {tr : List (α × ω)} {t u : σ} {a : α} {o : ω} :
      Steps step s tr t → step t a o u → Steps step s (tr ++ [(a, o)]) u

theorem Steps.single (h : step s a o t) : Steps step s [(a, o)] t :=
  .snoc .refl h

/-- What holds at the start and is kept by one step holds at the end of every run. The
predicate may mention the history. -/
theorem Steps.invariant {P : List (α × ω) → σ → Prop} (h : Steps step s tr t) (h0 : P [] s)
    (hs : ∀ tr t a o u, P tr t → step t a o u → P (tr ++ [(a, o)]) u) : P tr t := by
  induction h with
  | refl => exact h0
  | snoc _ hstep ih => exact hs _ _ _ _ _ ih hstep

/-- The invariant rule for a predicate of the state alone. -/
theorem Steps.preserves {P : σ → Prop} (h : Steps step s tr t) (h0 : P s)
    (hs : ∀ t a o u, P t → step t a o u → P u) : P t :=
  h.invariant (P := fun _ t => P t) h0 (fun _ t a o u => hs t a o u)

theorem Steps.trans (h : Steps step s tr t) (h' : Steps step t tr' u) :
    Steps step s (tr ++ tr') u := by
  induction h' with
  | refl => simpa using h
  | snoc _ hstep ih => simpa using Steps.snoc ih hstep

theorem Steps.cons (h : step s a o t) (h' : Steps step t tr u) : Steps step s ((a, o) :: tr) u :=
  (Steps.single h).trans h'

theorem Steps.nil_inv (h : Steps step s [] t) : t = s := by
  generalize htr : [] = tr at h
  cases h with
  | refl => rfl
  | snoc => simp at htr

/-- A run is undone at its end. -/
theorem Steps.snoc_inv (h : Steps step s (tr ++ [(a, o)]) u) :
    ∃ t, Steps step s tr t ∧ step t a o u := by
  generalize htr : tr ++ [(a, o)] = full at h
  cases h with
  | refl => simp at htr
  | snoc hrun hstep =>
    obtain ⟨rfl, hlast⟩ := List.append_inj' htr rfl
    obtain ⟨rfl, rfl⟩ : _ = _ ∧ _ = _ := by simpa using hlast
    exact ⟨_, hrun, hstep⟩

/-- A run whose trace is cut in two passes through a state at the cut. -/
theorem Steps.cut {pre post : List (α × ω)} (h : Steps step s (pre ++ post) t) :
    ∃ u, Steps step s pre u ∧ Steps step u post t := by
  induction post using List.reverseRecOn generalizing t with
  | nil => exact ⟨t, by simpa using h, .refl⟩
  | append_singleton post last ih =>
    obtain ⟨a, o⟩ := last
    rw [← List.append_assoc] at h
    obtain ⟨v, hrun, hstep⟩ := h.snoc_inv
    obtain ⟨u, hpre, hpost⟩ := ih hrun
    exact ⟨u, hpre, .snoc hpost hstep⟩

/-- Every recorded step of a run was taken, between two runs. -/
theorem Steps.split {pre post : List (α × ω)} (h : Steps step s (pre ++ (a, o) :: post) t) :
    ∃ u v, Steps step s pre u ∧ step u a o v ∧ Steps step v post t := by
  rw [List.append_cons] at h
  obtain ⟨v, hpre, hpost⟩ := h.cut
  obtain ⟨u, hu, hstep⟩ := hpre.snoc_inv
  exact ⟨u, v, hu, hstep, hpost⟩

/-- A relation that is a function of its label runs in one way only. -/
theorem Steps.deterministic (h : Steps step s tr t) (h' : Steps step s tr u)
    (hdet : ∀ s a o t t', step s a o t → step s a o t' → t = t') : t = u := by
  induction h generalizing u with
  | refl => exact h'.nil_inv.symm
  | snoc _ hstep ih =>
    obtain ⟨v, hv, hstep'⟩ := h'.snoc_inv
    obtain rfl := ih hv
    exact hdet _ _ _ _ _ hstep hstep'

/-- Where an element stands in a list that was extended at its end. -/
theorem snoc_eq_split {β : Type*} {l pre post : List β} {x e : β}
    (h : l ++ [e] = pre ++ x :: post) :
    (post = [] ∧ pre = l ∧ x = e) ∨ ∃ post', post = post' ++ [e] ∧ l = pre ++ x :: post' := by
  induction post using List.reverseRecOn with
  | nil =>
    obtain ⟨hl, he⟩ := List.append_inj' h rfl
    cases he
    exact Or.inl ⟨rfl, hl.symm, rfl⟩
  | append_singleton post y _ =>
    rw [← List.cons_append, ← List.append_assoc] at h
    obtain ⟨hl, he⟩ := List.append_inj' h rfl
    cases he
    exact Or.inr ⟨post, rfl, hl⟩

theorem getElem?_snoc {β : Type*} {l : List β} {x y : β} {i : ℕ} (h : (l ++ [x])[i]? = some y) :
    l[i]? = some y ∨ i = l.length ∧ y = x := by
  rcases Nat.lt_or_ge i l.length with hlt | hge
  · rw [List.getElem?_append_left hlt] at h
    exact Or.inl h
  · obtain ⟨hi, hy⟩ := List.getElem?_eq_some_iff.mp h
    have hlast : i = l.length := by
      rw [List.length_append, List.length_singleton] at hi
      omega
    subst hlast
    exact Or.inr ⟨rfl, by simpa using hy.symm⟩

/-- Forward simulation with the same labels: every run of the lower system is one of the upper. -/
theorem Steps.simulate {τ : Type*} {step' : τ → α → ω → τ → Prop} {R : τ → σ → Prop} {p : τ}
    (h : Steps step s tr t) (h0 : R p s)
    (hs : ∀ q t a o u, R q t → step t a o u → ∃ q', step' q a o q' ∧ R q' u) :
    ∃ q, Steps step' p tr q ∧ R q t := by
  induction h with
  | refl => exact ⟨p, .refl, h0⟩
  | snoc _ hstep ih =>
    obtain ⟨q, hq, hr⟩ := ih
    obtain ⟨q', hq', hr'⟩ := hs _ _ _ _ _ hr hstep
    exact ⟨q', hq.snoc hq', hr'⟩

/-- If an invariant always leaves a step for every label, every list of labels is run. -/
theorem Steps.total {P : σ → Prop} (h0 : P s)
    (hs : ∀ t a, P t → ∃ o u, step t a o u ∧ P u) (labels : List α) :
    ∃ tr t, Steps step s tr t ∧ tr.map Prod.fst = labels ∧ P t := by
  induction labels using List.reverseRecOn with
  | nil => exact ⟨[], s, .refl, rfl, h0⟩
  | append_singleton labels a ih =>
    obtain ⟨tr, t, hrun, hlabels, ht⟩ := ih
    obtain ⟨o, u, hstep, hu⟩ := hs t a ht
    exact ⟨_, u, hrun.snoc hstep, by simp [hlabels], hu⟩

/-- A condition at every place of a longer list. -/
theorem forall_snoc_prefix_iff {β : Type*} {C : List β → β → Prop} {l : List β} {y : β} :
    (∀ pre x, pre ++ [x] <+: l ++ [y] → C pre x) ↔
      (∀ pre x, pre ++ [x] <+: l → C pre x) ∧ C l y := by
  constructor
  · intro h
    exact ⟨fun pre x hp => h pre x (hp.trans (List.prefix_append l [y])),
      h l y (List.prefix_refl _)⟩
  · rintro ⟨h, hy⟩ pre x hp
    rcases List.prefix_concat_iff.mp hp with heq | hp
    · obtain ⟨rfl, hx⟩ := List.append_inj' heq rfl
      cases hx
      exact hy
    · exact h pre x hp

/-- A condition on every place of a list is one on its indices. -/
theorem forall_split_of_getElem {β : Type*} {C : List β → β → List β → Prop} {l : List β}
    (h : ∀ (i : ℕ) (hi : i < l.length), C (l.take i) l[i] (l.drop (i + 1))) :
    ∀ pre x post, l = pre ++ x :: post → C pre x post := by
  rintro pre x post rfl
  have hmid := h pre.length (by simp)
  simpa using hmid

theorem forall_snoc_prefix_of_getElem {β : Type*} {C : List β → β → Prop} {l : List β}
    (h : ∀ (i : ℕ) (hi : i < l.length), C (l.take i) l[i]) :
    ∀ pre x, pre ++ [x] <+: l → C pre x := by
  rintro pre x ⟨post, rfl⟩
  exact forall_split_of_getElem (C := fun pre x _ => C pre x) h pre x post (by simp)

/-- How many elements of a list meet a condition on the elements before them and themselves;
`pre` is what comes before the list. -/
def countPlacesFrom {β : Type*} (C : List β → β → Bool) (pre : List β) : List β → ℕ
  | [] => 0
  | x :: l => (C pre x).toNat + countPlacesFrom C (pre ++ [x]) l

def countPlaces {β : Type*} (C : List β → β → Bool) (l : List β) : ℕ :=
  countPlacesFrom C [] l

theorem countPlacesFrom_append {β : Type*} {C : List β → β → Bool} {pre l l' : List β} :
    countPlacesFrom C pre (l ++ l') =
      countPlacesFrom C pre l + countPlacesFrom C (pre ++ l) l' := by
  induction l generalizing pre with
  | nil => simp [countPlacesFrom]
  | cons x l ih =>
    rw [List.cons_append, countPlacesFrom, countPlacesFrom, ih, List.append_assoc,
      List.singleton_append, Nat.add_assoc]

theorem countPlaces_snoc {β : Type*} {C : List β → β → Bool} {l : List β} {x : β} :
    countPlaces C (l ++ [x]) = countPlaces C l + (C l x).toNat := by
  rw [countPlaces, countPlacesFrom_append]
  rfl

/-- A property holds after every prefix of a list of calls exactly when every call meets a condition
at its place, if the condition decides one call and an invariant carries the state between them. -/
theorem forall_prefix_iff {β : Type*} {P I : List β → Prop} {C : List β → β → Prop}
    (h0 : P [] ∧ I []) (hgood : ∀ l x, I l → C l x → P (l ++ [x]) ∧ I (l ++ [x]))
    (hbad : ∀ l x, I l → P (l ++ [x]) → C l x) (l : List β) :
    ((∀ pre, pre <+: l → P pre) ↔ ∀ pre x, pre ++ [x] <+: l → C pre x) ∧
      ((∀ pre x, pre ++ [x] <+: l → C pre x) → I l) := by
  induction l using List.reverseRecOn with
  | nil => simp [h0]
  | append_singleton l y ih =>
    obtain ⟨hiff, hinv⟩ := ih
    have hprefix : (∀ pre, pre <+: l ++ [y] → P pre) ↔
        (∀ pre, pre <+: l → P pre) ∧ P (l ++ [y]) := by
      constructor
      · intro h
        exact ⟨fun pre hp => h pre (hp.trans (List.prefix_append l [y])), h _ (List.prefix_refl _)⟩
      · rintro ⟨h, hy⟩ pre hp
        rcases List.prefix_concat_iff.mp hp with rfl | hp
        · exact hy
        · exact h pre hp
    rw [forall_snoc_prefix_iff, hprefix, hiff]
    constructor
    · constructor
      · rintro ⟨h, hy⟩
        exact ⟨h, hbad l y (hinv h) hy⟩
      · rintro ⟨h, hy⟩
        exact ⟨h, (hgood l y (hinv h) hy).1⟩
    · rintro ⟨h, hy⟩
      exact (hgood l y (hinv h) hy).2

/-- Every call of a list meets a property exactly when it meets a condition at its place, if that
is so of each call where an invariant holds, and a call with the property keeps the invariant. -/
theorem forall_call_iff {β : Type*} {P C : List β → β → Prop} {I : List β → Prop} {l : List β}
    (h0 : I []) (hcall : ∀ pre x, pre ++ [x] <+: l → I pre → (P pre x ↔ C pre x))
    (hnext : ∀ pre x, pre ++ [x] <+: l → I pre → P pre x → I (pre ++ [x])) :
    (∀ pre x, pre ++ [x] <+: l → P pre x) ↔ ∀ pre x, pre ++ [x] <+: l → C pre x := by
  have hinv : (∀ pre x, pre ++ [x] <+: l → I pre → P pre x) → ∀ pre, pre <+: l → I pre := by
    intro h pre hp
    induction pre using List.reverseRecOn with
    | nil => exact h0
    | append_singleton pre x ih =>
      have hi := ih ((List.prefix_append pre [x]).trans hp)
      exact hnext pre x hp hi (h pre x hp hi)
  constructor
  · intro h pre x hp
    have hi := hinv (fun pre x hp _ => h pre x hp) pre ((List.prefix_append pre [x]).trans hp)
    exact (hcall pre x hp hi).mp (h pre x hp)
  · intro h pre x hp
    have hi := hinv (fun pre x hp hi => (hcall pre x hp hi).mpr (h pre x hp)) pre
      ((List.prefix_append pre [x]).trans hp)
    exact (hcall pre x hp hi).mpr (h pre x hp)

end Pc2Drc.Lib
