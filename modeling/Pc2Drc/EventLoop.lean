import Pc2Drc.Events
import Pc2Drc.Lib.Run

/-! Runs of an event machine: the loop of `ProcessEvents`, the stop event, and what other threads
do to the machine in between. -/
namespace Pc2Drc
open Lib

/-- Where the loop is: not entered, before `epoll_wait`, or inside a batch. -/
inductive LoopPc
  | idle
  | waiting
  | batch (triggered : List Fd)
  deriving DecidableEq, Repr

structure EventLoop (κ : Type) where
  em : EventMachine κ
  pc : LoopPc

/-- `keep` is what a dispatched user callback returns. -/
inductive LoopAction (κ : Type)
  | startEM
  | poll (triggered : List Fd)
  | dispatch (fd : Fd) (keep : Bool)
  | endBatch
  | leave
  | stopEM
  | newEvent (fd : Fd) (readSize : ℕ) (k : κ)
  | cancelEvent (evt : Event κ)

/-- What a step shows: the stop callback, a user's callback, or the stop event triggered; the last
through a pointer that may dangle. -/
inductive LoopOutput (κ : Type)
  | stopped
  | callback (k : κ)
  | triggered (fd : Fd)
  | dangling
  deriving DecidableEq, Repr

namespace EventMachine

variable {κ : Type}

/-- The handler of the stop event. -/
def stopHandler (em : EventMachine κ) : EventMachine κ :=
  { em with running := false }.clearUserEvents

/-- The descriptor of the stop event as long as the event exists. -/
def stopFd? (em : EventMachine κ) : Option Fd :=
  (em.events.entries.find? fun e => e.2.ptr = em.stopEvt).map (·.1)

end EventMachine

namespace EventLoop

variable {κ : Type}

def create (stopFd : Fd) : EventLoop κ := { em := .create stopFd, pc := .idle }

/-- One round of the loop over a batch. An event that was dropped meanwhile is passed over. -/
def dispatch (l : EventLoop κ) (fd : Fd) (rest : List Fd) (keep : Bool) :
    EventLoop κ × List (LoopOutput κ) :=
  match l.em.events.lookup fd with
  | none => ({ l with pc := .batch rest }, [])
  | some evt =>
    match evt.callback with
    | .stop => ({ em := l.em.stopHandler, pc := .batch rest }, [.stopped])
    | .user k =>
      let events := if keep then l.em.events else l.em.events.erase fd
      ({ em := { l.em with events := events }, pc := .batch rest }, [.callback k])

def stopEM (l : EventLoop κ) : List (LoopOutput κ) :=
  if l.em.running then
    match l.em.stopFd? with
    | some fd => [.triggered fd]
    | none => [.dangling]
  else []

end EventLoop

variable {κ : Type}

/-- A step of the loop's thread or of another one. A batch is any list of descriptors; a new event
gets one that no registered event holds; the stop event's pointer is private. -/
inductive LoopStep : EventLoop κ → LoopAction κ → List (LoopOutput κ) → EventLoop κ → Prop
  | startEM {l : EventLoop κ} : l.pc = .idle →
      LoopStep l .startEM [] { em := { l.em with running := true }, pc := .waiting }
  | poll {l : EventLoop κ} {triggered : List Fd} :
      l.pc = .waiting → l.em.running = true → triggered.length ≤ 64 →
      LoopStep l (.poll triggered) [] { l with pc := .batch triggered }
  | dispatch {l : EventLoop κ} {fd : Fd} {rest : List Fd} {keep : Bool} :
      l.pc = .batch (fd :: rest) →
      LoopStep l (.dispatch fd keep) (l.dispatch fd rest keep).2 (l.dispatch fd rest keep).1
  | endBatch {l : EventLoop κ} : l.pc = .batch [] →
      LoopStep l .endBatch [] { l with pc := .waiting }
  | leave {l : EventLoop κ} : l.pc = .waiting → l.em.running = false →
      LoopStep l .leave [] { l with pc := .idle }
  | stopEM {l : EventLoop κ} : LoopStep l .stopEM l.stopEM l
  | newEvent {l : EventLoop κ} {fd : Fd} {readSize : ℕ} {k : κ} : fd ∉ l.em.events →
      LoopStep l (.newEvent fd readSize k) []
        { l with em := (l.em.newEvent fd readSize (.user k)).1 }
  | cancelEvent {l : EventLoop κ} {evt : Event κ} {em : EventMachine κ} :
      evt.ptr ≠ l.em.stopEvt → l.em.cancelEvent evt = .ok em →
      LoopStep l (.cancelEvent evt) [] { l with em := em }

abbrev LoopTrace (κ : Type) := List (LoopAction κ × List (LoopOutput κ))

/-- The runs of a machine from its construction. -/
def LoopRun (stopFd : Fd) (tr : LoopTrace κ) (l : EventLoop κ) : Prop :=
  Steps LoopStep (EventLoop.create stopFd) tr l

/-- The stop event is registered and nothing else is. -/
def OnlyStopEvent (em : EventMachine κ) : Prop :=
  ∃ fd evt, em.events.entries = [⟨fd, evt⟩] ∧ evt.ptr = em.stopEvt

/-- What stopping a machine should do: once the stop callback ran, no user callback runs before
the next start, only the stop event is registered, and after a start the next `StopEM` triggers a
registered event whose dispatch stops the machine again. -/
structure StopsCleanly (stopFd : Fd) (tr : LoopTrace κ) : Prop where
  quiet : ∀ (pre mid post : LoopTrace κ) (a a' : LoopAction κ) (out out' : List (LoopOutput κ)) k,
    tr = pre ++ (a, out) :: mid ++ (a', out') :: post → .stopped ∈ out →
    .callback k ∈ out' → ∃ o, (.startEM, o) ∈ mid
  registered : ∀ (pre post : LoopTrace κ) (a : LoopAction κ) (out : List (LoopOutput κ)) l,
    tr = pre ++ (a, out) :: post → .stopped ∈ out →
    LoopRun stopFd (pre ++ [(a, out)]) l → OnlyStopEvent l.em
  triggers : ∀ (pre mid post : LoopTrace κ) (a : LoopAction κ)
    (out out' o : List (LoopOutput κ)),
    tr = pre ++ (a, out) :: mid ++ (.stopEM, out') :: post → .stopped ∈ out →
    (.startEM, o) ∈ mid → .dangling ∉ out'
  ends : ∀ (pre mid mid' post : LoopTrace κ) (a : LoopAction κ)
    (out out' out'' o : List (LoopOutput κ)) fd keep,
    tr = pre ++ (a, out) :: mid ++ (.stopEM, out') :: mid' ++ (.dispatch fd keep, out'') :: post →
    .stopped ∈ out → (.startEM, o) ∈ mid → .triggered fd ∈ out' → .stopped ∈ out''

variable {l l' : EventLoop κ} {a : LoopAction κ} {out : List (LoopOutput κ)} {fd stopFd : Fd}
  {tr pre post : LoopTrace κ}

/-- The handler of the stop event leaves the other events and takes the stop event out. -/
theorem EventMachine.mem_stopHandler {em : EventMachine κ} {e : (_ : Fd) × Event κ} :
    e ∈ em.stopHandler.events.entries ↔ e ∈ em.events.entries ∧ e.2.ptr ≠ em.stopEvt := by
  simp [stopHandler, clearUserEvents]

theorem EventMachine.not_onlyStopEvent (em : EventMachine κ) :
    ¬ OnlyStopEvent em.stopHandler := by
  rintro ⟨fd, evt, hentries, hptr⟩
  have hmem : ⟨fd, evt⟩ ∈ em.stopHandler.events.entries := by
    rw [hentries]
    exact List.mem_singleton_self _
  exact (mem_stopHandler.mp hmem).2 hptr

theorem EventMachine.lookup_stopHandler {em : EventMachine κ} {evt : Event κ} :
    em.stopHandler.events.lookup fd = some evt ↔
      em.events.lookup fd = some evt ∧ evt.ptr ≠ em.stopEvt := by
  rw [← Option.mem_def, ← Option.mem_def, AList.mem_lookup_iff, AList.mem_lookup_iff,
    mem_stopHandler]

theorem lookup_of_erase {events : AList fun _ : Fd => Event κ} {fd' : Fd} {evt : Event κ}
    (h : (events.erase fd').lookup fd = some evt) : events.lookup fd = some evt := by
  by_cases hfd : fd = fd'
  · subst hfd
    rw [AList.lookup_erase] at h
    cases h
  · rwa [AList.lookup_erase_ne hfd] at h

/-- What a step can do to the machine: register one event of a user, drop events of users, or run
the stop handler, which is dispatched like any other. -/
structure LoopEffect (em : EventMachine κ) (a : LoopAction κ) (out : List (LoopOutput κ))
    (em' : EventMachine κ) : Prop where
  stopEvt : em'.stopEvt = em.stopEvt
  nextPtr : em.nextPtr ≤ em'.nextPtr
  lookup : ∀ fd evt, em'.events.lookup fd = some evt → em.events.lookup fd = some evt ∨
    em.nextPtr ≤ evt.ptr ∧ ∃ k, evt.callback = .user k
  kept : ∀ fd evt, em.events.lookup fd = some evt → evt.callback = .stop →
    evt.ptr = em.stopEvt → em'.events.lookup fd = some evt ∨ .stopped ∈ out
  running : em.running = true → em'.running = true ∨ .stopped ∈ out
  stopped : .stopped ∈ out → em' = em.stopHandler ∧ ∃ fd keep evt, a = .dispatch fd keep ∧
    em.events.lookup fd = some evt ∧ evt.callback = .stop
  runs : ∀ fd keep evt, a = .dispatch fd keep → em.events.lookup fd = some evt →
    evt.callback = .stop → .stopped ∈ out

/-- A step that leaves the events alone and dispatches none of them. -/
theorem LoopEffect.same (em : EventMachine κ) (running : Bool)
    (hr : em.running = true → running = true) (hout : .stopped ∉ out)
    (ha : ∀ fd keep, a = .dispatch fd keep → em.events.lookup fd = none) :
    LoopEffect em a out { em with running := running } where
  stopEvt := rfl
  nextPtr := le_rfl
  lookup := fun _ _ h => Or.inl h
  kept := fun _ _ h _ _ => Or.inl h
  running := fun h => Or.inl (hr h)
  stopped := fun h => (hout h).elim
  runs := by
    intro fd keep evt hd hlook
    rw [ha fd keep hd] at hlook
    cases hlook

/-- An entry is passed over, runs the stop handler, or runs the callback of a user. -/
theorem EventLoop.dispatch_cases (l : EventLoop κ) (fd : Fd) (rest : List Fd) (keep : Bool) :
    (l.em.events.lookup fd = none ∧
      l.dispatch fd rest keep = ({ l with pc := .batch rest }, [])) ∨
    (∃ evt, l.em.events.lookup fd = some evt ∧ evt.callback = .stop ∧
      l.dispatch fd rest keep = ({ em := l.em.stopHandler, pc := .batch rest }, [.stopped])) ∨
    ∃ evt k, l.em.events.lookup fd = some evt ∧ evt.callback = .user k ∧
      l.dispatch fd rest keep = ({ em := { l.em with
        events := if keep then l.em.events else l.em.events.erase fd }, pc := .batch rest },
        [.callback k]) := by
  cases hlook : l.em.events.lookup fd with
  | none => exact Or.inl ⟨rfl, by simp only [dispatch, hlook]⟩
  | some evt =>
    cases hcb : evt.callback with
    | stop => exact Or.inr (Or.inl ⟨evt, rfl, hcb, by simp only [dispatch, hlook, hcb]⟩)
    | user k => exact Or.inr (Or.inr ⟨evt, k, rfl, hcb, by simp only [dispatch, hlook, hcb]⟩)

theorem LoopEffect.dispatch {rest : List Fd} {keep : Bool} :
    LoopEffect l.em (.dispatch fd keep) (l.dispatch fd rest keep).2
      (l.dispatch fd rest keep).1.em := by
  rcases l.dispatch_cases fd rest keep with
    ⟨hlook, heq⟩ | ⟨evt, hlook, hcb, heq⟩ | ⟨evt, k, hlook, hcb, heq⟩
  · rw [heq]
    refine .same l.em l.em.running id (by simp) ?_
    intro fd' keep' hd
    cases hd
    exact hlook
  · rw [heq]
    refine ⟨rfl, le_rfl, ?_, ?_, ?_, ?_, ?_⟩
    · exact fun fd' evt' h => Or.inl (EventMachine.lookup_stopHandler.mp h).1
    · exact fun _ _ _ _ _ => Or.inr (List.mem_singleton_self _)
    · exact fun _ => Or.inr (List.mem_singleton_self _)
    · exact fun _ => ⟨rfl, fd, keep, evt, rfl, hlook, hcb⟩
    · exact fun _ _ _ _ _ _ => List.mem_singleton_self _
  · rw [heq]
    refine ⟨rfl, le_rfl, ?_, ?_, Or.inl, by simp, ?_⟩
    · intro fd' evt' h
      cases keep with
      | true => exact Or.inl h
      | false => exact Or.inl (lookup_of_erase h)
    · intro fd' evt' h hstop _
      have hfd : fd' ≠ fd := by
        rintro rfl
        cases hlook.symm.trans h
        rw [hcb] at hstop
        cases hstop
      cases keep with
      | true => exact Or.inl h
      | false => exact Or.inl ((AList.lookup_erase_ne hfd).trans h)
    · intro fd' keep' evt' hd h hstop
      cases hd
      cases hlook.symm.trans h
      rw [hcb] at hstop
      cases hstop

theorem LoopStep.effect (hs : LoopStep l a out l') : LoopEffect l.em a out l'.em := by
  cases hs with
  | startEM => exact .same l.em true (fun _ => rfl) (by simp) (by simp)
  | poll | endBatch | leave => exact .same l.em l.em.running id (by simp) (by simp)
  | stopEM =>
    refine .same l.em l.em.running id ?_ (by simp)
    unfold EventLoop.stopEM
    split_ifs
    · split <;> simp
    · simp
  | dispatch => exact .dispatch
  | @newEvent fd readSize k hfd =>
    refine ⟨rfl, Nat.le_succ _, ?_, ?_, Or.inl, by simp, by simp⟩
    · intro fd' evt' h
      by_cases heq : fd' = fd
      · subst heq
        obtain rfl := Option.some.inj ((AList.lookup_insert _).symm.trans h)
        exact Or.inr ⟨le_rfl, k, rfl⟩
      · exact Or.inl ((AList.lookup_insert_ne heq).symm.trans h)
    · intro fd' evt' h _ _
      have hne : fd' ≠ fd := by
        rintro rfl
        rw [AList.lookup_eq_none.mpr hfd] at h
        cases h
      exact Or.inl ((AList.lookup_insert_ne hne).trans h)
  | @cancelEvent evt em hptr hcancel =>
    obtain ⟨e, hlook, heq, rfl⟩ := EventMachine.cancelEvent_eq_ok.mp hcancel
    refine ⟨rfl, le_rfl, fun _ _ h => Or.inl (lookup_of_erase h), ?_, Or.inl, by simp, by simp⟩
    intro fd' evt' h _ hstop
    have hne : fd' ≠ evt.fd := by
      rintro rfl
      cases hlook.symm.trans h
      exact hptr (heq.symm.trans hstop)
    exact Or.inl ((AList.lookup_erase_ne hne).trans h)

/-- The stop event is registered under its descriptor and nowhere else. -/
structure StopRegistered (stopFd : Fd) (em : EventMachine κ) : Prop where
  registered : ∃ evt, em.events.lookup stopFd = some evt ∧ evt.callback = .stop ∧
    evt.ptr = em.stopEvt
  only : ∀ fd evt, em.events.lookup fd = some evt → evt.callback = .stop → fd = stopFd

theorem stopRegistered_create (stopFd : Fd) :
    StopRegistered stopFd (EventMachine.create stopFd : EventMachine κ) where
  registered := ⟨_, by rw [EventMachine.lookup_create, if_pos rfl], rfl, rfl⟩
  only := by
    intro fd evt hlook _
    rw [EventMachine.lookup_create] at hlook
    split_ifs at hlook with hfd
    exact hfd

/-- Until its descriptor is dispatched the stop event stays, and its callback does not run. -/
theorem stopRegistered_step (hi : StopRegistered stopFd l.em) (hs : LoopStep l a out l')
    (hne : ∀ keep, a ≠ .dispatch stopFd keep) :
    StopRegistered stopFd l'.em ∧ .stopped ∉ out := by
  have he := hs.effect
  have hno : .stopped ∉ out := by
    intro hmem
    obtain ⟨-, fd, keep, evt, rfl, hlook, hcb⟩ := he.stopped hmem
    obtain rfl := hi.only fd evt hlook hcb
    exact hne keep rfl
  obtain ⟨evt, hlook, hcb, hptr⟩ := hi.registered
  refine ⟨⟨⟨evt, ?_, hcb, by rw [he.stopEvt]; exact hptr⟩, ?_⟩, hno⟩
  · exact (he.kept stopFd evt hlook hcb hptr).resolve_right hno
  · intro fd evt hlook hcb
    rcases he.lookup fd evt hlook with h | ⟨-, k, hk⟩
    · exact hi.only fd evt h hcb
    · rw [hk] at hcb
      cases hcb

/-- The stop callback runs in a run exactly when the stop event's descriptor is dispatched. -/
theorem stopped_iff_dispatched (hrun : LoopRun stopFd tr l) :
    (∃ x ∈ tr, .stopped ∈ x.2) ↔ ∃ keep o, (.dispatch stopFd keep, o) ∈ tr := by
  have hinv : (StopRegistered stopFd l.em ∧ (∀ x ∈ tr, .stopped ∉ x.2) ∧
      ∀ keep o, (.dispatch stopFd keep, o) ∉ tr) ∨
      ((∃ x ∈ tr, .stopped ∈ x.2) ∧ ∃ keep o, (.dispatch stopFd keep, o) ∈ tr) := by
    refine Steps.invariant (P := fun tr l => (StopRegistered stopFd l.em ∧
      (∀ x ∈ tr, .stopped ∉ x.2) ∧ ∀ keep o, (.dispatch stopFd keep, o) ∉ tr) ∨
      ((∃ x ∈ tr, .stopped ∈ x.2) ∧ ∃ keep o, (.dispatch stopFd keep, o) ∈ tr)) hrun
      (Or.inl ⟨stopRegistered_create stopFd, by simp, by simp⟩) ?_
    rintro tr l a out l' (⟨hreg, hno, hdisp⟩ | ⟨⟨x, hx, hmem⟩, keep, o, hd⟩) hs
    · by_cases ha : ∃ keep, a = .dispatch stopFd keep
      · obtain ⟨keep, rfl⟩ := ha
        obtain ⟨evt, hlook, hcb, -⟩ := hreg.registered
        have hmem := hs.effect.runs stopFd keep evt rfl hlook hcb
        exact Or.inr ⟨⟨_, List.mem_append_right _ (List.mem_singleton_self _), hmem⟩, keep, out,
          List.mem_append_right _ (List.mem_singleton_self _)⟩
      · have hne : ∀ keep, a ≠ .dispatch stopFd keep := fun keep h => ha ⟨keep, h⟩
        obtain ⟨hreg', hno'⟩ := stopRegistered_step hreg hs hne
        refine Or.inl ⟨hreg', ?_, ?_⟩
        · intro x hx
          rcases List.mem_append.mp hx with hx | hx
          · exact hno x hx
          · obtain rfl := List.mem_singleton.mp hx
            exact hno'
        · intro keep o hmem
          rcases List.mem_append.mp hmem with hmem | hmem
          · exact hdisp keep o hmem
          · cases List.mem_singleton.mp hmem
            exact hne keep rfl
    · exact Or.inr ⟨⟨x, List.mem_append_left _ hx, hmem⟩, keep, o, List.mem_append_left _ hd⟩
  rcases hinv with ⟨-, hno, hdisp⟩ | ⟨hstop, hdisp⟩
  · constructor
    · rintro ⟨x, hx, hmem⟩
      exact (hno x hx hmem).elim
    · rintro ⟨keep, o, hmem⟩
      exact (hdisp keep o hmem).elim
  · exact iff_of_true hstop hdisp

/-- Stopping is clean in a run exactly as long as the stop event is never dispatched. -/
theorem stopsCleanly_iff (hrun : LoopRun stopFd tr l) :
    StopsCleanly stopFd tr ↔ ∀ keep o, (.dispatch stopFd keep, o) ∉ tr := by
  have hiff := stopped_iff_dispatched hrun
  constructor
  · intro hclean keep o hmem
    obtain ⟨⟨a, out⟩, hx, hstop⟩ := hiff.mpr ⟨keep, o, hmem⟩
    obtain ⟨pre, post, rfl⟩ := List.append_of_mem hx
    obtain ⟨l₁, l₂, hpre, hstep, -⟩ := Steps.split hrun
    have honly := hclean.registered pre post a out l₂ rfl hstop (hpre.snoc hstep)
    rw [(hstep.effect.stopped hstop).1] at honly
    exact l₁.em.not_onlyStopEvent honly
  · intro hno
    have hfalse : ∀ pre a out post, tr = pre ++ (a, out) :: post → .stopped ∉ out := by
      rintro pre a out post rfl hmem
      obtain ⟨keep, o, hd⟩ := hiff.mp ⟨(a, out), by simp, hmem⟩
      exact hno keep o hd
    refine ⟨?_, ?_, ?_, ?_⟩
    · intro pre mid post a a' out out' k htr hmem
      exact (hfalse pre a out (mid ++ (a', out') :: post) (by simp [htr]) hmem).elim
    · intro pre post a out l htr hmem
      exact (hfalse pre a out post htr hmem).elim
    · intro pre mid post a out out' o htr hmem
      exact (hfalse pre a out (mid ++ (.stopEM, out') :: post) (by simp [htr]) hmem).elim
    · intro pre mid mid' post a out out' out'' o fd keep htr hmem
      exact (hfalse pre a out (mid ++ (.stopEM, out') :: mid' ++ (.dispatch fd keep, out'') :: post)
        (by simp [htr]) hmem).elim

/-- The theorem at a run that starts the machine and handles one user event. -/
theorem stopsCleanly_unstopped : ∃ (tr : LoopTrace ℕ) (l : EventLoop ℕ), LoopRun 3 tr l ∧
    .callback 7 ∈ tr.flatMap (·.2) ∧ StopsCleanly 3 tr := by
  have hrun : LoopRun 3 [(.newEvent 5 8 7, []), (.startEM, []), (.poll [5], []),
      (.dispatch 5 true, [.callback 7])] _ :=
    .cons (.newEvent (by decide)) (.cons (.startEM rfl) (.cons (.poll rfl rfl (by decide))
      (.cons (.dispatch rfl) .refl)))
  exact ⟨_, _, hrun, by decide, (stopsCleanly_iff hrun).mpr (by simp)⟩

/-- A batch with the stop event before a user event: the user's callback runs after the stop
callback, with no start in between. -/
theorem stops_dirty : ¬ ∀ (tr : LoopTrace ℕ) (l : EventLoop ℕ), LoopRun 3 tr l →
    StopsCleanly 3 tr := by
  intro hall
  have hrun : LoopRun 3 [(.newEvent 5 8 7, []), (.startEM, []), (.poll [3, 5], []),
      (.dispatch 3 true, [.stopped]), (.dispatch 5 true, [.callback 7])] _ :=
    .cons (.newEvent (by decide)) (.cons (.startEM rfl) (.cons (.poll rfl rfl (by decide))
      (.cons (.dispatch rfl) (.cons (.dispatch rfl) .refl))))
  obtain ⟨o, ho⟩ := (hall _ _ hrun).quiet
    [(.newEvent 5 8 7, []), (.startEM, []), (.poll [3, 5], [])] [] [] (.dispatch 3 true)
    (.dispatch 5 true) [.stopped] [.callback 7] 7 rfl (by simp) (by simp)
  simp at ho

/-- The stop event is the only one with the stop handler. -/
structure StopInv (em : EventMachine κ) : Prop where
  fresh : em.stopEvt < em.nextPtr
  stop : ∀ fd evt, em.events.lookup fd = some evt → evt.callback = .stop → evt.ptr = em.stopEvt

/-- No event is registered any more that could stop the machine. -/
def StopEventGone (em : EventMachine κ) : Prop :=
  ∀ fd evt, em.events.lookup fd = some evt → evt.ptr ≠ em.stopEvt

theorem stopInv_step (hi : StopInv l.em) (hs : LoopStep l a out l') : StopInv l'.em := by
  have he := hs.effect
  refine ⟨by rw [he.stopEvt]; exact Nat.lt_of_lt_of_le hi.fresh he.nextPtr, ?_⟩
  intro fd evt hlook hcb
  rw [he.stopEvt]
  rcases he.lookup fd evt hlook with h | ⟨-, k, hk⟩
  · exact hi.stop fd evt h hcb
  · rw [hk] at hcb
    cases hcb

theorem stopInv_run (hrun : LoopRun stopFd tr l) : StopInv l.em := by
  refine Steps.preserves (P := fun l => StopInv l.em) hrun ?_
    (fun _ _ _ _ hi hs => stopInv_step hi hs)
  refine ⟨Nat.zero_lt_one, ?_⟩
  intro fd evt hlook _
  rw [EventLoop.create, EventMachine.lookup_create] at hlook
  split_ifs at hlook
  cases hlook
  rfl

/-- Once the stop callback ran, it never runs again. -/
theorem stopEventGone_step (hi : StopInv l.em) (hg : StopEventGone l.em)
    (hs : LoopStep l a out l') : StopEventGone l'.em ∧ .stopped ∉ out := by
  have he := hs.effect
  constructor
  · intro fd evt hlook
    rw [he.stopEvt]
    rcases he.lookup fd evt hlook with h | ⟨hptr, -⟩
    · exact hg fd evt h
    · exact (Nat.lt_of_lt_of_le hi.fresh hptr).ne'
  · intro hmem
    obtain ⟨-, fd, keep, evt, -, hlook, hcb⟩ := he.stopped hmem
    exact hg fd evt hlook (hi.stop fd evt hlook hcb)

/-- A machine that was stopped and started again runs for good: nothing can stop it. -/
theorem restarted_runs {mid : LoopTrace κ} {o : List (LoopOutput κ)}
    (hrun : LoopRun stopFd (pre ++ (a, out) :: mid ++ (.startEM, o) :: post) l)
    (hmem : .stopped ∈ out) : l.em.running = true := by
  obtain ⟨l₃, l₄, hmid, hstart, hpost⟩ := Steps.split hrun
  obtain ⟨l₁, l₂, hpre, hstop, hmid'⟩ := Steps.split hmid
  have hgone : StopEventGone l₂.em := by
    intro fd evt hlook
    rw [(hstop.effect.stopped hmem).1] at hlook ⊢
    exact (EventMachine.lookup_stopHandler.mp hlook).2
  have h₃ : StopInv l₃.em ∧ StopEventGone l₃.em :=
    hmid'.preserves (P := fun l => StopInv l.em ∧ StopEventGone l.em)
      ⟨stopInv_run (hpre.snoc hstop), hgone⟩
      (fun _ _ _ _ hi hs => ⟨stopInv_step hi.1 hs, (stopEventGone_step hi.1 hi.2 hs).1⟩)
  have hr : l₄.em.running = true := by
    cases hstart
    rfl
  refine (hpost.preserves (P := fun l => StopInv l.em ∧ StopEventGone l.em ∧ l.em.running = true)
    ⟨stopInv_step h₃.1 hstart, (stopEventGone_step h₃.1 h₃.2 hstart).1, hr⟩ ?_).2.2
  rintro s b ob t ⟨hi, hg, hr⟩ hs
  obtain ⟨hg', hno⟩ := stopEventGone_step hi hg hs
  exact ⟨stopInv_step hi hs, hg', (hs.effect.running hr).resolve_right hno⟩

end Pc2Drc
