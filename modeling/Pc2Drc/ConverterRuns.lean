import Pc2Drc.ConverterOrder

/-! Whole runs of the converter: what is delivered, how far it is behind, when `Stop` returns, and
that it never gets stuck. -/
namespace Pc2Drc
open Lib

variable {sws : SwsScale → List (List UInt8) → List UInt8} {c c' : VideoConverter}
  {t : ConversionAt} {live : Option ConversionAt} {waiting : List PushedFrame} {n : ℕ}
  {o : Option ConverterOutput} {tr : ConverterTrace}

theorem createdIn_append (tr tr' : ConverterTrace) :
    createdIn (tr ++ tr') = createdIn tr ++ createdIn tr' :=
  List.filterMap_append

theorem Serving.length_waiting (h : Serving sws waiting n live c) :
    waiting.length ≤ 2 ∧ (c.user = .idle → waiting.length ≤ 1) := by
  have hlive : live.toList.length ≤ 1 := Option.length_toList_le
  have hheld : c.held.length ≤ 1 := by
    rw [VideoConverter.held]
    split <;> simp
  have hlen : waiting.length = live.toList.length + c.held.length := by
    rw [h.waiting, List.length_append, List.length_map]
  refine ⟨by omega, fun hidle => ?_⟩
  rw [VideoConverter.held, hidle] at hlen
  rw [hlen]
  exact hlive

/-- Every parameter tuple has one context, and it is the one its size needs. -/
structure Cached (tr : ConverterTrace) (c : VideoConverter) : Prop where
  known : ∀ p, p ∈ createdIn tr ↔ c.ctxs p ≠ none
  right : ∀ p ctx, c.ctxs p = some ctx → getContextForParams p = .ok ctx
  once : (createdIn tr).Nodup

theorem not_created (p : VideoConverterParams) :
    (none : Option ConverterOutput) ≠ some (.created p) :=
  (Option.some_ne_none _).symm

theorem Cached.silent {a : ConverterAction} (h : Cached tr c) (hctxs : c'.ctxs = c.ctxs)
    (ho : ∀ p, o ≠ some (.created p)) : Cached (tr ++ [(a, o)]) c' := by
  have hnone : createdIn [(a, o)] = [] := by
    rcases o with _ | p | _ | _ | _
    case some.created => exact absurd rfl (ho p)
    all_goals rfl
  refine ⟨?_, ?_, ?_⟩
  · rw [createdIn_append, hnone, List.append_nil, hctxs]
    exact h.known
  · rw [hctxs]
    exact h.right
  · rw [createdIn_append, hnone, List.append_nil]
    exact h.once

theorem ctxs_userStep (hs : c.userStep = some (c', o)) :
    c'.ctxs = c.ctxs ∧ ∀ p, o ≠ some (.created p) := by
  rw [VideoConverter.userStep] at hs
  split at hs
  case h_1 => cases hs
  case h_2 | h_3 | h_7 =>
    split at hs <;> cases hs
    refine ⟨rfl, fun p hp => ?_⟩
    cases hp
  all_goals
    cases hs
    refine ⟨rfl, fun p hp => ?_⟩
    cases hp

theorem Cached.getContext (h : Cached tr c) {wanted : SwsContext}
    (hw : getContextForParams c.currentParams = .ok wanted)
    (hne : c.ctxs c.currentParams ≠ some wanted) (i : ℕ) {threads : List ConversionAt} :
    Cached (tr ++ [(.thread i, some (.created c.currentParams))])
      { c with
        threads := threads
        ctxs := Function.update c.ctxs c.currentParams (some wanted) } := by
  -- a context that is there is the wanted one, so there is none yet
  have hnone : c.ctxs c.currentParams = none := by
    by_contra hsome
    obtain ⟨ctx, hctx⟩ := Option.ne_none_iff_exists'.mp hsome
    have hright := h.right _ _ hctx
    rw [hw] at hright
    cases hright
    exact hne hctx
  have hnew : createdIn (tr ++ [(.thread i, some (.created c.currentParams))]) =
      createdIn tr ++ [c.currentParams] := createdIn_append _ _
  refine ⟨?_, ?_, ?_⟩
  · intro p
    rw [hnew, List.mem_append, List.mem_singleton, h.known]
    by_cases hp : p = c.currentParams
    · subst hp
      simp
    · simp [hp]
  · intro p ctx hctx
    change Function.update c.ctxs c.currentParams (some wanted) p = some ctx at hctx
    by_cases hp : p = c.currentParams
    · subst hp
      rw [Function.update_self] at hctx
      cases hctx
      exact hw
    · rw [Function.update_of_ne hp] at hctx
      exact h.right p ctx hctx
  · rw [hnew, List.nodup_append]
    refine ⟨h.once, List.pairwise_singleton _ _, ?_⟩
    rintro p hp q hq rfl
    rw [List.mem_singleton] at hq
    subst hq
    exact (h.known _).mp hp hnone

theorem cached_step {a : ConverterAction} (h : Cached tr c) (hs : ConverterStep sws c a o c') :
    Cached (tr ++ [(a, o)]) c' := by
  cases a with
  | pushFrame frame params =>
    obtain ⟨-, rfl, rfl⟩ := step_pushFrame hs
    exact h.silent rfl not_created
  | stop =>
    obtain ⟨-, rfl, rfl⟩ := step_stop hs
    exact h.silent rfl not_created
  | user =>
    obtain ⟨hctxs, ho⟩ := ctxs_userStep hs
    exact h.silent hctxs ho
  | thread i =>
    obtain ⟨t, t', ctxs, -, hstep, rfl⟩ := step_thread hs
    cases t with
    | getContext =>
      obtain ⟨wanted, hwanted, hstep⟩ := Option.bind_eq_some_iff.mp hstep
      split at hstep
      · cases hstep
        exact h.silent rfl not_created
      · rename_i hne
        cases hstep
        exact h.getContext (ok_of_toOption hwanted) hne i
    | unpack ctx =>
      obtain ⟨call, -, hstep⟩ := Option.bind_eq_some_iff.mp hstep
      cases hstep
      exact h.silent rfl not_created
    | scale call rows =>
      rw [VideoConverter.conversionStep] at hstep
      split at hstep
      · obtain ⟨row, -, hstep⟩ := Option.bind_eq_some_iff.mp hstep
        cases hstep
        exact h.silent rfl not_created
      · cases hstep
        exact h.silent rfl not_created
    | deliver frame =>
      cases hstep
      refine h.silent rfl fun p hp => ?_
      cases hp
    | finished => cases hstep

theorem cached_create : Cached [] .create where
  known := fun _ => ⟨nofun, fun hp => absurd rfl hp⟩
  right := by
    intro p ctx h
    cases h
  once := List.nodup_nil

theorem cached_run (h : ConverterRun sws tr c) : Cached tr c :=
  Steps.invariant (P := Cached) h cached_create fun _ _ _ _ _ => cached_step

/-- The steps of the user's thread to the end of its call. -/
def userRank : UserAt → ℕ
  | .idle => 0
  | .wait none | .assign _ => 1
  | .spawn => 2
  | .storeParams _ => 3
  | .storeFrame _ => 4
  | .wait (some _) => 5

theorem Serving.userStep_enabled (h : Serving sws waiting n none c) (hu : c.user ≠ .idle) :
    ∃ c' o, c.userStep = some (c', o) ∧ userRank c'.user < userRank c.user := by
  have hready : c.ready = true := by
    cases hu' : c.user with
    | assign k => exact h.ready_assign hu'
    | _ => exact (h.ready_iff (by rw [hu']; exact nofun)).mpr rfl
  rw [VideoConverter.userStep]
  cases hu' : c.user with
  | idle => exact absurd hu' hu
  | wait next =>
    cases next with
    | none => exact ⟨_, _, if_pos hready, Nat.zero_lt_one⟩
    | some next => exact ⟨_, _, if_pos hready, Nat.lt_succ_self 4⟩
  | storeFrame next => exact ⟨_, _, rfl, Nat.lt_succ_self 3⟩
  | storeParams params => exact ⟨_, _, rfl, Nat.lt_succ_self 2⟩
  | spawn => exact ⟨_, _, rfl, Nat.lt_succ_self 1⟩
  | assign k => exact ⟨_, _, if_pos hready, Nat.zero_lt_one⟩

theorem Serving.thread_enabled (h : Serving sws waiting n (some t) c)
    (hok : ∀ job ∈ waiting, converted sws job ≠ none) :
    ∃ t' ctxs o, c.conversionStep sws t = some (t', ctxs, o) ∧ ConverterStep sws c (.thread n) o
      { c with threads := c.threads.set n t', ctxs := ctxs } := by
  have hmem : c.job ∈ waiting := by
    rw [h.waiting]
    exact List.mem_cons_self
  obtain ⟨frame, hframe⟩ := Option.ne_none_iff_exists'.mp (hok c.job hmem)
  obtain ⟨t', ctxs, o, hstep⟩ :=
    conversionStep_of_remaining ((h.running t rfl).2.trans hframe)
  refine ⟨t', ctxs, o, hstep, ?_⟩
  have ht : c.threads[n]? = some t := by
    rw [getElem?_threads h.threads, if_neg (lt_irrefl n), if_pos rfl]
  rw [ConverterStep, VideoConverter.step, ht]
  change (c.conversionStep sws t >>= _) = _
  rw [hstep]
  rfl

theorem noCalls_nil : NoCalls [] := fun _ hx => absurd hx List.not_mem_nil

theorem noCalls_append {tr' : ConverterTrace} (h : NoCalls tr) (h' : NoCalls tr') :
    NoCalls (tr ++ tr') := by
  intro x hx
  rcases List.mem_append.mp hx with hx | hx
  · exact h x hx
  · exact h' x hx

theorem noCalls_thread (i : ℕ) : NoCalls [(.thread i, o)] := by
  rintro x hx
  rw [List.mem_singleton.mp hx]
  exact Or.inr ⟨i, rfl⟩

theorem noCalls_user : NoCalls [(.user, o)] := by
  rintro x hx
  rw [List.mem_singleton.mp hx]
  exact Or.inl rfl

/-- The running conversion alone comes to its end. -/
theorem Serving.finish (h : Serving sws waiting n live c)
    (hok : ∀ job ∈ waiting, converted sws job ≠ none) :
    ∃ tr c' waiting' n', Steps (ConverterStep sws) c tr c' ∧ NoCalls tr ∧ c'.user = c.user ∧
      Serving sws waiting' n' none c' ∧ waiting' <:+ waiting := by
  cases live with
  | none => exact ⟨[], c, waiting, n, .refl, noCalls_nil, rfl, h, List.suffix_rfl⟩
  | some t =>
    induction hm : stepsLeft c.currentParams.height.toNat t using Nat.strong_induction_on
      generalizing c t with
    | _ m ih =>
      obtain ⟨t', ctxs, o, hstep, hs⟩ := h.thread_enabled hok
      have hlt := stepsLeft_conversionStep hstep
      rcases h.conversionStep hstep with ⟨-, h'⟩ | ⟨frame, -, hw, -, -, h'⟩
      · obtain ⟨tr, c', waiting', n', hrun, hcalls, huser, h'', hsuffix⟩ :=
          ih _ (hm ▸ hlt) _ h' rfl
        exact ⟨_, c', waiting', n', .cons hs hrun, noCalls_append (noCalls_thread n) hcalls,
          huser, h'', hsuffix⟩
      · exact ⟨_, _, _, _, .single hs, noCalls_thread n, rfl, h', hw ▸ List.suffix_cons _ _⟩

/-- Left alone, the user's thread comes to the end of its call and every push is answered. -/
theorem Serving.drain (h : Serving sws waiting n live c)
    (hok : ∀ job ∈ waiting, converted sws job ≠ none) :
    ∃ tr c' n', Steps (ConverterStep sws) c tr c' ∧ NoCalls tr ∧ c'.user = .idle ∧
      Serving sws [] n' none c' := by
  induction hm : userRank c.user using Nat.strong_induction_on
    generalizing c waiting n live with
  | _ m ih =>
    obtain ⟨tr, c₁, waiting₁, n₁, hrun, hcalls, huser, h₁, hsuffix⟩ := h.finish hok
    by_cases hidle : c₁.user = .idle
    · have hw := h₁.waiting
      rw [VideoConverter.held, hidle] at hw
      subst hw
      exact ⟨tr, c₁, n₁, hrun, hcalls, hidle, h₁⟩
    · obtain ⟨c₂, o, hs, hlt⟩ := h₁.userStep_enabled hidle
      obtain ⟨live', h₂, -⟩ := h₁.userStep hs
      rw [huser, hm] at hlt
      have hok₂ : ∀ job ∈ waiting₁, converted sws job ≠ none :=
        fun job hjob => hok job (hsuffix.subset hjob)
      obtain ⟨tr', c', n', hrun', hcalls', hidle', h'⟩ := ih _ hlt h₂ hok₂ rfl
      have hmid : Steps (ConverterStep sws) c₁ ((.user, o) :: tr') c' := .cons hs hrun'
      exact ⟨_, c', n', hrun.trans hmid,
        noCalls_append hcalls (noCalls_append noCalls_user hcalls'), hidle', h'⟩

theorem Serving.waiting_eq {waiting' : List PushedFrame} {n' : ℕ}
    (h : Serving sws waiting n none c) (h' : Serving sws waiting' n' live c) :
    waiting' = waiting := by
  have hnone : live = none := by
    by_contra hne
    exact ((h.live_iff n').mp ((h'.live_iff n').mpr ⟨rfl, hne⟩)).2 rfl
  rw [h.waiting, h'.waiting, hnone]

theorem pushedIn_noCalls (h : NoCalls tr) : pushedIn tr = [] := by
  apply List.filterMap_eq_nil_iff.mpr
  rintro ⟨a, o⟩ hx
  obtain rfl | ⟨i, rfl⟩ : a = .user ∨ ∃ i, a = .thread i := h _ hx
  · rfl
  · rfl

/-- What holds after every interleaving of the user's calls with the conversions. -/
structure ConvertsInOrder (sws : SwsScale → List (List UInt8) → List UInt8) (tr : ConverterTrace)
    (c : VideoConverter) : Prop where
  exclusive : c.Exclusive
  delivered : (deliveredIn tr).map some =
    ((pushedIn tr).take (deliveredIn tr).length).map (converted sws)
  behind : (pushedIn tr).length ≤ (deliveredIn tr).length + 2
  idle : c.user = .idle → (pushedIn tr).length ≤ (deliveredIn tr).length + 1
  stopped : ∀ pre a, tr = pre ++ [(a, some .stopped)] →
    (deliveredIn tr).length = (pushedIn tr).length
  contexts : (createdIn tr).Nodup
  completes : (∀ job ∈ pushedIn tr, converted sws job ≠ none) →
    ∃ tr' c', Steps (ConverterStep sws) c tr' c' ∧ NoCalls tr' ∧ c'.user = .idle ∧
      (deliveredIn (tr ++ tr')).map some = (pushedIn tr).map (converted sws)

/-- Nothing waits when `Stop` returns. -/
theorem delivered_of_stopped {a : ConverterAction}
    (h : ConverterRun sws (tr ++ [(a, some .stopped)]) c) :
    (deliveredIn (tr ++ [(a, some .stopped)])).length =
      (pushedIn (tr ++ [(a, some .stopped)])).length := by
  obtain ⟨c₀, hrun, hs⟩ := Steps.snoc_inv h
  obtain ⟨waiting, n, live, hserved, hserving⟩ := serving_run hrun
  obtain ⟨waiting', n', live', hserved', -, hnone⟩ := serving_step hserved hserving hs
  rw [hnone rfl] at hserved'
  have hlen := hserved'.length_add
  rwa [List.length_nil, Nat.add_zero, ← pushedIn_append, ← deliveredIn_append] at hlen

/-- From every state the threads can go on, without another call, until nothing waits. -/
theorem converterRun_completes (h : ConverterRun sws tr c)
    (hok : ∀ job ∈ pushedIn tr, converted sws job ≠ none) :
    ∃ tr' c', Steps (ConverterStep sws) c tr' c' ∧ NoCalls tr' ∧ c'.user = .idle ∧
      (deliveredIn (tr ++ tr')).map some = (pushedIn tr).map (converted sws) := by
  obtain ⟨waiting, n, live, hserved, hserving⟩ := serving_run h
  obtain ⟨done, hsplit, -⟩ := hserved.split
  have hmem : ∀ job ∈ waiting, job ∈ pushedIn tr := by
    intro job hjob
    rw [hsplit]
    exact List.mem_append_right done hjob
  obtain ⟨tr', c', n', hrun, hcalls, hu, hserving'⟩ :=
    hserving.drain fun job hjob => hok job (hmem job hjob)
  obtain ⟨waiting', n'', live', hserved', hserving''⟩ := serving_run (Steps.trans h hrun)
  rw [hserving'.waiting_eq hserving'', pushedIn_append, pushedIn_noCalls hcalls,
    List.append_nil] at hserved'
  obtain ⟨done', hsplit', hdelivered⟩ := hserved'.split
  rw [List.append_nil] at hsplit'
  exact ⟨tr', c', hrun, hcalls, hu, by rw [hdelivered, hsplit']⟩

end Pc2Drc
