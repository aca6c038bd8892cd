import Pc2Drc.ConverterThread
import Pc2Drc.Lib.Fifo
import Pc2Drc.Lib.Memory

/-! The converter answers its pushes in their order: one thread at a time, each on the frame and
the parameters of one call. -/
namespace Pc2Drc
open Lib

variable {sws : SwsScale → List (List UInt8) → List UInt8} {c c' : VideoConverter}
  {t t' : ConversionAt} {live : Option ConversionAt} {waiting : List PushedFrame} {n : ℕ}
  {o : Option ConverterOutput} {tr : ConverterTrace}
  {ctxs : VideoConverterParams → Option SwsContext}

theorem doConversion_split (p : VideoConverterParams) :
    doConversion p = (getContextForParams p).bind fun ctx => conversionCall ctx p := rfl

/-- What is left of `sws_scale` and of the callback when some rows have been read. -/
def remainingRows (sws : SwsScale → List (List UInt8) → List UInt8) (frame : List UInt8)
    (call : SwsScale) (rows : List (List UInt8)) : Option (List UInt8) :=
  ((List.range' rows.length (call.sliceH.toNat - rows.length)).mapM (call.readRow frame)).map
    fun rest => sws call (rows ++ rest)

namespace VideoConverter

/-- The frame and the parameters that a running conversion sees. -/
def job (c : VideoConverter) : PushedFrame := (c.currentFrame, c.currentParams)

/-- What the thread at `t` delivers in the end if nobody writes the members. -/
def remaining (c : VideoConverter) (sws : SwsScale → List (List UInt8) → List UInt8) :
    ConversionAt → Option (List UInt8)
  | .getContext => converted sws c.job
  | .unpack ctx =>
    (conversionCall ctx c.currentParams).toOption.bind fun call =>
      remainingRows sws c.currentFrame call []
  | .scale call rows => remainingRows sws c.currentFrame call rows
  | .deliver frame => some frame
  | .finished => none

/-- What the user's thread still holds of the call it is in. -/
def held (c : VideoConverter) : List PushedFrame :=
  match c.user with
  | .wait (some next) | .storeFrame next => [next]
  | .storeParams params => [(c.currentFrame, params)]
  | .spawn => [c.job]
  | .idle | .wait none | .assign _ => []

/-- The user's thread is between the wait and the start of the next thread. -/
def Handing (c : VideoConverter) : Prop :=
  c.Storing ∨ c.user = .spawn

end VideoConverter

/-- The latest of `n` threads. -/
def lastConv : ℕ → Option ℕ
  | 0 => none
  | n + 1 => some n

/-- `n` conversions are over and at most one more is running; what waits is its job and then what
the user's thread holds. -/
structure Serving (sws : SwsScale → List (List UInt8) → List UInt8) (waiting : List PushedFrame)
    (n : ℕ) (live : Option ConversionAt) (c : VideoConverter) : Prop where
  threads : c.threads = List.replicate n .finished ++ live.toList
  running : ∀ t ∈ live, t ≠ .finished ∧ c.remaining sws t = converted sws c.job
  handing : c.Handing → live = none
  waiting : waiting = live.toList.map (fun _ => c.job) ++ c.held
  conv : (∀ k, c.user ≠ .assign k) → c.currentConv = lastConv c.threads.length
  assign : ∀ k, c.user = .assign k → k + 1 = c.threads.length ∧ c.currentConv = lastConv k

theorem getElem?_threads (h : c.threads = List.replicate n .finished ++ live.toList) (i : ℕ) :
    c.threads[i]? = if i < n then some .finished else if i = n then live else none := by
  rw [h]
  rcases Nat.lt_trichotomy i n with hi | rfl | hi
  · rw [if_pos hi, List.getElem?_append_left (by simpa using hi), List.getElem?_replicate,
      if_pos hi]
  · rw [if_neg (lt_irrefl i), if_pos rfl, List.getElem?_append_right (by simp),
      List.length_replicate, Nat.sub_self]
    cases live <;> rfl
  · rw [if_neg (by omega), if_neg (by omega), List.getElem?_eq_none]
    have hlen : live.toList.length ≤ 1 := Option.length_toList_le
    rw [List.length_append, List.length_replicate]
    omega

theorem Serving.live_iff (h : Serving sws waiting n live c) (i : ℕ) :
    c.Live i ↔ i = n ∧ live ≠ none := by
  rw [VideoConverter.Live, getElem?_threads h.threads]
  constructor
  · rintro ⟨t, ht, hne⟩
    split_ifs at ht with hlt heq
    · cases ht
      exact absurd rfl hne
    · exact ⟨heq, by rw [ht]; exact nofun⟩
  · rintro ⟨rfl, hlive⟩
    obtain ⟨t, rfl⟩ := Option.ne_none_iff_exists'.mp hlive
    exact ⟨t, by rw [if_neg (lt_irrefl i), if_pos rfl], (h.running t rfl).1⟩

theorem Serving.exclusive (h : Serving sws waiting n live c) : c.Exclusive := by
  constructor
  · intro i j hi hj
    rw [((h.live_iff i).mp hi).1, ((h.live_iff j).mp hj).1]
  · intro hs i hi
    exact ((h.live_iff i).mp hi).2 (h.handing (Or.inl hs))

theorem ready_of_none (h : c.currentConv = none) : c.ready = true := by
  rw [VideoConverter.ready, h]

theorem ready_of_thread {i : ℕ} (h : c.currentConv = some i) (ht : c.threads[i]? = some t) :
    c.ready = true ↔ t = .finished := by
  rw [VideoConverter.ready, h]
  simp only [ht]
  cases t <;> simp

theorem Serving.length_threads (h : Serving sws waiting n live c) :
    c.threads.length = n + live.toList.length := by
  rw [h.threads, List.length_append, List.length_replicate]

/-- A wait returns when no conversion is running. -/
theorem Serving.ready_iff (h : Serving sws waiting n live c) (hu : ∀ k, c.user ≠ .assign k) :
    c.ready = true ↔ live = none := by
  have hconv := h.conv hu
  rw [h.length_threads] at hconv
  cases hl : live with
  | none =>
    rw [hl] at hconv
    refine iff_of_true ?_ rfl
    cases n with
    | zero => exact ready_of_none hconv
    | succ n =>
      have ht : c.threads[n]? = some .finished := by
        rw [getElem?_threads h.threads, if_pos (Nat.lt_succ_self n)]
      exact (ready_of_thread hconv ht).mpr rfl
  | some t =>
    rw [hl] at hconv
    have ht : c.threads[n]? = some t := by
      rw [getElem?_threads h.threads, if_neg (lt_irrefl n), if_pos rfl, hl]
    rw [ready_of_thread hconv ht]
    exact iff_of_false (h.running t hl).1 nofun

/-- The future that is assigned over is never waited for. -/
theorem Serving.ready_assign (h : Serving sws waiting n live c) {k : ℕ} (hu : c.user = .assign k) :
    c.ready = true := by
  obtain ⟨hk, hconv⟩ := h.assign k hu
  have hlen := h.length_threads
  have hle : live.toList.length ≤ 1 := Option.length_toList_le
  cases k with
  | zero => exact ready_of_none hconv
  | succ k =>
    have ht : c.threads[k]? = some .finished := by
      rw [getElem?_threads h.threads, if_pos (by omega)]
    exact (ready_of_thread hconv ht).mpr rfl

theorem mapM_range'_succ {β : Type} (f : ℕ → Option β) {i m : ℕ} {x : β} (h : f i = some x) :
    (List.range' i (m + 1)).mapM f = ((List.range' (i + 1) m).mapM f).map (x :: ·) := by
  rw [List.range'_succ, List.mapM_cons, h]
  cases (List.range' (i + 1) m).mapM f <;> rfl

theorem remainingRows_read {frame : List UInt8} {call : SwsScale} {rows : List (List UInt8)}
    {row : List UInt8} (h : rows.length < call.sliceH.toNat)
    (hrow : call.readRow frame rows.length = some row) :
    remainingRows sws frame call rows = remainingRows sws frame call (rows ++ [row]) := by
  obtain ⟨m, hm⟩ := Nat.exists_eq_add_of_lt h
  have hleft : call.sliceH.toNat - rows.length = m + 1 := by omega
  have hleft' : call.sliceH.toNat - (rows ++ [row]).length = m := by
    rw [List.length_append, List.length_singleton]
    omega
  rw [remainingRows, remainingRows, hleft, hleft', mapM_range'_succ _ hrow, List.length_append,
    List.length_singleton, Option.map_map]
  congr 1
  funext rest
  change sws call (rows ++ row :: rest) = sws call (rows ++ [row] ++ rest)
  rw [List.append_cons]

theorem remainingRows_end {frame : List UInt8} {call : SwsScale} {rows : List (List UInt8)}
    (h : ¬ rows.length < call.sliceH.toNat) :
    remainingRows sws frame call rows = some (sws call rows) := by
  rw [remainingRows, Nat.sub_eq_zero_of_le (Nat.le_of_not_lt h), List.range'_zero]
  change some (sws call (rows ++ [])) = _
  rw [List.append_nil]

theorem converted_eq (c : VideoConverter) : converted sws c.job =
    (doConversion c.currentParams).toOption.bind fun call =>
      remainingRows sws c.currentFrame call [] := by
  rw [converted, VideoConverter.job]
  cases (doConversion c.currentParams).toOption with
  | none => rfl
  | some call =>
    change ((List.range call.sliceH.toNat).mapM (call.readRow c.currentFrame)).bind _ = _
    rw [Option.bind_some, remainingRows, List.length_nil, Nat.sub_zero, ← List.range_eq_range']
    cases (List.range call.sliceH.toNat).mapM (call.readRow c.currentFrame) <;> rfl

theorem toOption_bind {ε α β : Type} (x : Except ε α) (f : α → Except ε β) :
    (x.bind f).toOption = x.toOption.bind fun a => (f a).toOption := by
  cases x <;> rfl

theorem ok_of_toOption {ε α : Type} {x : Except ε α} {a : α} (h : x.toOption = some a) :
    x = .ok a := by
  cases x with
  | error e => cases h
  | ok b =>
    cases h
    rfl

theorem remaining_getContext (c : VideoConverter) :
    c.remaining sws .getContext = (getContextForParams c.currentParams).toOption.bind fun ctx =>
      c.remaining sws (.unpack ctx) := by
  rw [VideoConverter.remaining, converted_eq, doConversion_split, toOption_bind, Option.bind_assoc]
  rfl

theorem unfinished_unpack (ctx : SwsContext) : ConversionAt.unpack ctx ≠ .finished := nofun

theorem unfinished_scale (call : SwsScale) (rows : List (List UInt8)) :
    ConversionAt.scale call rows ≠ .finished := nofun

theorem unfinished_deliver (frame : List UInt8) : ConversionAt.deliver frame ≠ .finished := nofun

/-- A step of a conversion brings it closer to what it delivers, or delivers it. -/
theorem conversionStep_remaining (h : c.conversionStep sws t = some (t', ctxs, o)) :
    t' ≠ .finished ∧ c.remaining sws t' = c.remaining sws t ∧
        (o = none ∨ ∃ p, o = some (.created p)) ∨
      ∃ frame, t' = .finished ∧ c.remaining sws t = some frame ∧ o = some (.delivered frame) := by
  cases t with
  | getContext =>
    left
    obtain ⟨wanted, hwanted, h⟩ := Option.bind_eq_some_iff.mp h
    rw [remaining_getContext, hwanted, Option.bind_some]
    split at h <;> cases h
    · exact ⟨unfinished_unpack wanted, rfl, Or.inl rfl⟩
    · exact ⟨unfinished_unpack wanted, rfl, Or.inr ⟨_, rfl⟩⟩
  | unpack ctx =>
    left
    obtain ⟨call, hcall, h⟩ := Option.bind_eq_some_iff.mp h
    cases h
    refine ⟨unfinished_scale call [], ?_, Or.inl rfl⟩
    rw [VideoConverter.remaining, VideoConverter.remaining, hcall, Option.bind_some]
  | scale call rows =>
    left
    rw [VideoConverter.conversionStep] at h
    split at h
    · rename_i hlt
      obtain ⟨row, hrow, h⟩ := Option.bind_eq_some_iff.mp h
      cases h
      exact ⟨unfinished_scale call _, (remainingRows_read hlt hrow).symm, Or.inl rfl⟩
    · rename_i hge
      cases h
      exact ⟨unfinished_deliver _, (remainingRows_end hge).symm, Or.inl rfl⟩
  | deliver frame =>
    cases h
    exact Or.inr ⟨frame, rfl, rfl, rfl⟩
  | finished => cases h

/-- A conversion without a fault is never stuck. -/
theorem conversionStep_of_remaining {frame : List UInt8} (h : c.remaining sws t = some frame) :
    ∃ t' ctxs o, c.conversionStep sws t = some (t', ctxs, o) := by
  cases t with
  | getContext =>
    rw [remaining_getContext] at h
    obtain ⟨wanted, hwanted, -⟩ := Option.bind_eq_some_iff.mp h
    rw [VideoConverter.conversionStep, hwanted]
    by_cases hc : c.ctxs c.currentParams = some wanted
    · exact ⟨_, _, _, if_pos hc⟩
    · exact ⟨_, _, _, if_neg hc⟩
  | unpack ctx =>
    obtain ⟨call, hcall, -⟩ := Option.bind_eq_some_iff.mp h
    rw [VideoConverter.conversionStep, hcall]
    exact ⟨_, _, _, rfl⟩
  | scale call rows =>
    rw [VideoConverter.conversionStep]
    by_cases hlt : rows.length < call.sliceH.toNat
    · obtain ⟨m, hm⟩ := Nat.exists_eq_add_of_lt hlt
      have hleft : call.sliceH.toNat - rows.length = m + 1 := by omega
      obtain ⟨rest, hrest, -⟩ := Option.map_eq_some_iff.mp h
      rw [hleft, List.range'_succ, List.mapM_cons] at hrest
      obtain ⟨row, hrow, -⟩ := Option.bind_eq_some_iff.mp hrest
      rw [if_pos hlt, hrow]
      exact ⟨_, _, _, rfl⟩
    · rw [if_neg hlt]
      exact ⟨_, _, _, rfl⟩
  | deliver frame => exact ⟨_, _, _, rfl⟩
  | finished => cases h

/-- How far a conversion is from its end. -/
def stepsLeft (height : ℕ) : ConversionAt → ℕ
  | .getContext => height + 4
  | .unpack _ => height + 3
  | .scale call rows => call.sliceH.toNat - rows.length + 2
  | .deliver _ => 1
  | .finished => 0

theorem sliceH_conversionCall {ctx : SwsContext} {p : VideoConverterParams} {call : SwsScale}
    (h : conversionCall ctx p = .ok call) : call.sliceH = p.height.toNat := by
  obtain ⟨place, -, h⟩ := bind_eq_ok.mp h
  obtain ⟨strides, -, h⟩ := bind_eq_ok.mp h
  dsimp only at h
  split at h
  all_goals
    obtain ⟨planes, -, h⟩ := bind_eq_ok.mp h
    obtain ⟨y, -, h⟩ := bind_eq_ok.mp h
    obtain ⟨uv, -, h⟩ := bind_eq_ok.mp h
    cases h
    rfl

theorem stepsLeft_conversionStep (h : c.conversionStep sws t = some (t', ctxs, o)) :
    stepsLeft c.currentParams.height.toNat t' < stepsLeft c.currentParams.height.toNat t := by
  cases t with
  | getContext =>
    obtain ⟨wanted, -, h⟩ := Option.bind_eq_some_iff.mp h
    split at h <;> cases h <;> exact Nat.lt_succ_self _
  | unpack ctx =>
    obtain ⟨call, hcall, h⟩ := Option.bind_eq_some_iff.mp h
    cases h
    rw [stepsLeft, stepsLeft, sliceH_conversionCall (ok_of_toOption hcall), List.length_nil,
      Int.toNat_natCast]
    omega
  | scale call rows =>
    rw [VideoConverter.conversionStep] at h
    split at h
    · obtain ⟨row, hrow, h⟩ := Option.bind_eq_some_iff.mp h
      cases h
      rw [stepsLeft, stepsLeft, List.length_append, List.length_singleton]
      omega
    · cases h
      rw [stepsLeft, stepsLeft]
      omega
  | deliver frame =>
    cases h
    exact Nat.one_pos
  | finished => cases h

/-- The user's thread goes on, or begins a call with what is in `extra`. -/
theorem Serving.move (h : Serving sws waiting n live c) {u : UserAt} {extra : List PushedFrame}
    (hu : ∀ k, c.user ≠ .assign k) (hu' : ∀ k, u ≠ .assign k)
    (hheld : VideoConverter.held { c with user := u } = c.held ++ extra)
    (hh : VideoConverter.Handing { c with user := u } → live = none) :
    Serving sws (waiting ++ extra) n live { c with user := u } where
  threads := h.threads
  running := h.running
  handing := hh
  waiting := by
    rw [hheld, h.waiting, List.append_assoc]
    rfl
  conv := fun _ => h.conv hu
  assign := fun k hk => absurd hk (hu' k)

/-- While the user's thread stores and starts the next thread, nothing else runs. -/
theorem Serving.store (h : Serving sws waiting n live c) (hh : c.Handing)
    (hu : ∀ k, c'.user ≠ .assign k) (hthreads : c'.threads = c.threads)
    (hconv : c'.currentConv = c.currentConv) (hheld : c'.held = c.held) :
    Serving sws waiting n none c' where
  threads := by
    rw [hthreads, h.threads, h.handing hh]
  running := nofun
  handing := fun _ => rfl
  waiting := by
    rw [h.waiting, h.handing hh, hheld]
    rfl
  conv := fun _ => by
    have hne : ∀ k, c.user ≠ .assign k := by
      rintro k hk
      obtain (⟨next, hs⟩ | ⟨params, hs⟩) | hs := hh <;> rw [hk] at hs <;> cases hs
    rw [hconv, hthreads, h.conv hne]
  assign := fun k hk => absurd hk (hu k)

/-- The thread that is started has the members as they were stored. -/
theorem Serving.spawn (h : Serving sws waiting n live c) (hu : c.user = .spawn) :
    Serving sws waiting n (some .getContext)
      { c with threads := c.threads ++ [.getContext], user := .assign c.threads.length } where
  threads := by
    rw [h.threads, h.handing (Or.inr hu)]
    exact congrArg (· ++ [_]) (List.append_nil _)
  running := by
    rintro t ht
    cases ht
    exact ⟨nofun, rfl⟩
  handing := by rintro ((⟨next, hs⟩ | ⟨params, hs⟩) | hs) <;> cases hs
  waiting := by
    rw [h.waiting, h.handing (Or.inr hu), VideoConverter.held, hu]
    rfl
  conv := fun hne => absurd rfl (hne _)
  assign := by
    rintro k hk
    cases hk
    refine ⟨?_, h.conv (by rw [hu]; exact nofun)⟩
    rw [List.length_append, List.length_singleton]

theorem Serving.assigned (h : Serving sws waiting n live c) {k : ℕ} (hu : c.user = .assign k) :
    Serving sws waiting n live { c with currentConv := some k, user := .idle } where
  threads := h.threads
  running := h.running
  handing := by rintro ((⟨next, hs⟩ | ⟨params, hs⟩) | hs) <;> cases hs
  waiting := by
    rw [h.waiting, VideoConverter.held, hu]
    rfl
  conv := fun _ => by
    rw [← (h.assign k hu).1]
    rfl
  assign := nofun

/-- The user's thread hands over without losing a push. -/
theorem Serving.userStep (h : Serving sws waiting n live c) (hs : c.userStep = some (c', o)) :
    ∃ live', Serving sws waiting n live' c' ∧
      (o = none ∨ o = some .pushed ∨ o = some .stopped ∧ waiting = []) := by
  have hrefl : waiting ++ [] = waiting := List.append_nil waiting
  rw [VideoConverter.userStep] at hs
  split at hs
  case h_1 => cases hs
  case h_2 hu =>
    have hne : ∀ k, c.user ≠ .assign k := by rw [hu]; exact nofun
    split at hs
    · rename_i hready
      cases hs
      have hw := h.waiting
      rw [(h.ready_iff hne).mp hready, VideoConverter.held, hu] at hw
      have hheld : VideoConverter.held { c with user := .idle } = c.held ++ [] := by
        rw [VideoConverter.held, VideoConverter.held, hu]
        rfl
      have hmove := h.move (u := .idle) hne nofun hheld
        (by rintro ((⟨next, hs⟩ | ⟨params, hs⟩) | hs) <;> cases hs)
      exact ⟨live, hrefl ▸ hmove, Or.inr (Or.inr ⟨rfl, hw⟩)⟩
    · cases hs
  case h_3 next hu =>
    have hne : ∀ k, c.user ≠ .assign k := by rw [hu]; exact nofun
    split at hs
    · rename_i hready
      cases hs
      have hheld : VideoConverter.held { c with user := .storeFrame next } = c.held ++ [] := by
        rw [VideoConverter.held, VideoConverter.held, hu]
        rfl
      have hmove := h.move (u := .storeFrame next) hne nofun hheld
        fun _ => (h.ready_iff hne).mp hready
      exact ⟨live, hrefl ▸ hmove, Or.inl rfl⟩
    · cases hs
  case h_4 next hu =>
    cases hs
    have hheld : VideoConverter.held
        { c with currentFrame := next.1, user := .storeParams next.2 } = c.held := by
      rw [VideoConverter.held, VideoConverter.held, hu]
    exact ⟨none, h.store (Or.inl (Or.inl ⟨next, hu⟩)) nofun rfl rfl hheld, Or.inl rfl⟩
  case h_5 params hu =>
    cases hs
    have hheld : VideoConverter.held { c with currentParams := params, user := .spawn } =
        c.held := by
      rw [VideoConverter.held, VideoConverter.held, hu]
      rfl
    exact ⟨none, h.store (Or.inl (Or.inr ⟨params, hu⟩)) nofun rfl rfl hheld, Or.inl rfl⟩
  case h_6 hu =>
    cases hs
    exact ⟨_, h.spawn hu, Or.inl rfl⟩
  case h_7 k hu =>
    rw [if_pos (h.ready_assign hu)] at hs
    cases hs
    exact ⟨live, h.assigned hu, Or.inr (Or.inl rfl)⟩

/-- The running conversion goes on, or delivers the job that waits longest. -/
theorem Serving.conversionStep (h : Serving sws waiting n (some t) c)
    (hstep : c.conversionStep sws t = some (t', ctxs, o)) :
    (o = none ∨ ∃ p, o = some (.created p)) ∧
        Serving sws waiting n (some t') { c with threads := c.threads.set n t', ctxs := ctxs } ∨
      ∃ frame, t' = .finished ∧ waiting = c.job :: c.held ∧ converted sws c.job = some frame ∧
        o = some (.delivered frame) ∧
        Serving sws c.held (n + 1) none { c with threads := c.threads.set n t', ctxs := ctxs } := by
  have hset : ∀ x, c.threads.set n x = List.replicate n .finished ++ [x] := by
    intro x
    rw [h.threads, List.set_append_right _ _ (by simp), List.length_replicate, Nat.sub_self]
    rfl
  have hlen : ∀ x, (c.threads.set n x).length = c.threads.length := fun x => List.length_set
  have hremaining := (h.running t rfl).2
  rcases conversionStep_remaining hstep with ⟨hne', hrem, hout⟩ | ⟨frame, rfl, hrem, rfl⟩
  · refine Or.inl ⟨hout, hset t', ?_, ?_, h.waiting, ?_, ?_⟩
    · rintro x hx
      cases hx
      exact ⟨hne', hrem.trans hremaining⟩
    · exact fun hh => absurd (h.handing hh) nofun
    · exact fun hu => (h.conv hu).trans (congrArg lastConv (hlen t').symm)
    · exact fun k hk => ⟨(h.assign k hk).1.trans (hlen t').symm, (h.assign k hk).2⟩
  · refine Or.inr ⟨frame, rfl, h.waiting, hremaining.symm.trans hrem, rfl, ?_⟩
    refine ⟨?_, nofun, fun _ => rfl, rfl, ?_, ?_⟩
    · rw [List.replicate_succ', Option.toList_none, List.append_nil]
      exact hset .finished
    · exact fun hu => (h.conv hu).trans (congrArg lastConv (hlen .finished).symm)
    · exact fun k hk => ⟨(h.assign k hk).1.trans (hlen .finished).symm, (h.assign k hk).2⟩

theorem step_thread {i : ℕ} (hs : c.step sws (.thread i) = some (c', o)) :
    ∃ t t' ctxs, c.threads[i]? = some t ∧ c.conversionStep sws t = some (t', ctxs, o) ∧
      c' = { c with threads := c.threads.set i t', ctxs := ctxs } := by
  obtain ⟨t, ht, hs⟩ := Option.bind_eq_some_iff.mp hs
  obtain ⟨⟨t', ctxs, o'⟩, hstep, hs⟩ := Option.bind_eq_some_iff.mp hs
  cases hs
  exact ⟨t, t', ctxs, ht, hstep, rfl⟩

/-- No other conversion can go on. -/
theorem Serving.threadStep (h : Serving sws waiting n live c) {i : ℕ}
    (hs : c.step sws (.thread i) = some (c', o)) :
    (∃ live', Serving sws waiting n live' c' ∧ (o = none ∨ ∃ p, o = some (.created p))) ∨
      ∃ job rest frame, waiting = job :: rest ∧ converted sws job = some frame ∧
        o = some (.delivered frame) ∧ Serving sws rest (n + 1) none c' := by
  obtain ⟨t, t', ctxs, ht, hstep, rfl⟩ := step_thread hs
  have hne : t ≠ .finished := by
    rintro rfl
    cases hstep
  obtain ⟨rfl, -⟩ := (h.live_iff i).mp ⟨t, ht, hne⟩
  rw [getElem?_threads h.threads, if_neg (lt_irrefl i), if_pos rfl] at ht
  subst ht
  rcases h.conversionStep hstep with ⟨hout, h'⟩ | ⟨frame, -, hw, hjob, ho, h'⟩
  · exact Or.inl ⟨some t', h', hout⟩
  · exact Or.inr ⟨c.job, c.held, frame, hw, hjob, ho, h'⟩

theorem pushedIn_append (tr tr' : ConverterTrace) :
    pushedIn (tr ++ tr') = pushedIn tr ++ pushedIn tr' :=
  List.filterMap_append

theorem deliveredIn_append (tr tr' : ConverterTrace) :
    deliveredIn (tr ++ tr') = deliveredIn tr ++ deliveredIn tr' :=
  List.filterMap_append

theorem served_silent {a : ConverterAction} {submitted : List PushedFrame}
    {served : List (List UInt8)} (h : Served (converted sws) submitted served waiting)
    (ha : pushedIn [(a, o)] = []) (ho : ∀ frame, o ≠ some (.delivered frame)) :
    Served (converted sws) (submitted ++ pushedIn [(a, o)]) (served ++ deliveredIn [(a, o)])
      waiting := by
  have hnone : deliveredIn [(a, o)] = [] := by
    rcases o with _ | _ | frame | _ | _
    case some.delivered => exact absurd rfl (ho frame)
    all_goals rfl
  rwa [ha, hnone, List.append_nil, List.append_nil]

theorem Serving.call (h : Serving sws waiting n live c) (hidle : c.user = .idle)
    (next : Option PushedFrame) :
    Serving sws (waiting ++ next.toList) n live { c with user := .wait next } := by
  refine h.move (u := .wait next) (by rw [hidle]; exact nofun) nofun ?_ ?_
  · rw [VideoConverter.held, VideoConverter.held, hidle]
    cases next <;> rfl
  · rintro ((⟨next, hs⟩ | ⟨params, hs⟩) | hs) <;> cases hs

/-- What one step of the system means for the server of jobs. -/
theorem serving_step {a : ConverterAction} {submitted : List PushedFrame}
    {served : List (List UInt8)} (hserved : Served (converted sws) submitted served waiting)
    (h : Serving sws waiting n live c) (hs : ConverterStep sws c a o c') :
    ∃ waiting' n' live', Served (converted sws) (submitted ++ pushedIn [(a, o)])
        (served ++ deliveredIn [(a, o)]) waiting' ∧ Serving sws waiting' n' live' c' ∧
      (o = some .stopped → waiting' = []) := by
  cases a with
  | pushFrame frame params =>
    obtain ⟨hidle, rfl, rfl⟩ := step_pushFrame hs
    refine ⟨_, n, live, ?_, h.call hidle (some (frame, params)), fun hstop => ?_⟩
    · exact (List.append_nil served).symm ▸ hserved.submit (frame, params)
    · cases hstop
  | stop =>
    obtain ⟨hidle, rfl, rfl⟩ := step_stop hs
    have h' := h.call hidle none
    rw [Option.toList_none, List.append_nil] at h'
    refine ⟨waiting, n, live, served_silent hserved rfl fun frame hd => ?_, h', fun hstop => ?_⟩
    · cases hd
    · cases hstop
  | user =>
    obtain ⟨live', h', hout⟩ := h.userStep hs
    refine ⟨waiting, n, live', served_silent hserved rfl ?_, h', ?_⟩
    · rintro frame rfl
      rcases hout with hout | hout | ⟨hout, -⟩ <;> cases hout
    · rintro rfl
      rcases hout with hout | hout | ⟨-, hw⟩
      · cases hout
      · cases hout
      · exact hw
  | thread i =>
    rcases h.threadStep hs with ⟨live', h', hout⟩ | ⟨job, rest, frame, rfl, hjob, rfl, h'⟩
    · refine ⟨waiting, n, live', served_silent hserved rfl ?_, h', ?_⟩
      · rintro frame rfl
        obtain hout | ⟨p, hout⟩ := hout <;> cases hout
      · rintro rfl
        obtain hout | ⟨p, hout⟩ := hout <;> cases hout
    · refine ⟨rest, n + 1, none, ?_, h', fun hstop => ?_⟩
      · exact (List.append_nil submitted).symm ▸ hserved.serve hjob
      · cases hstop

theorem serving_create : Serving sws [] 0 none .create where
  threads := rfl
  running := nofun
  handing := fun _ => rfl
  waiting := rfl
  conv := fun _ => rfl
  assign := nofun

/-- In every interleaving the converter is a server of its pushes. -/
theorem serving_run (h : ConverterRun sws tr c) : ∃ waiting n live,
    Served (converted sws) (pushedIn tr) (deliveredIn tr) waiting ∧
      Serving sws waiting n live c := by
  refine Steps.invariant
    (P := fun tr c => ∃ waiting n live,
      Served (converted sws) (pushedIn tr) (deliveredIn tr) waiting ∧ Serving sws waiting n live c)
    h ⟨[], 0, none, .start, serving_create⟩ ?_
  rintro tr c a o c' ⟨waiting, n, live, hserved, hserving⟩ hs
  obtain ⟨waiting', n', live', hserved', hserving', -⟩ := serving_step hserved hserving hs
  rw [pushedIn_append, deliveredIn_append]
  exact ⟨waiting', n', live', hserved', hserving'⟩

end Pc2Drc
