import Pc2Drc.EventLoop
import Pc2Drc.Lib.Batch

/-! The event loop and the descriptors of its process. The operating system hands out the lowest
free number, so a number can come back while a polled batch still holds it. -/
namespace Pc2Drc
open Lib

variable {κ : Type}

/-- `opened` are the descriptors of the process that no event of the machine holds. -/
structure FdLoop (κ : Type) where
  loop : EventLoop κ
  opened : List Fd

/-- A step of the machine, or a descriptor that the rest of the process opens or closes. -/
inductive FdAction (κ : Type)
  | machine (a : LoopAction κ)
  | opens (fd : Fd)
  | closes (fd : Fd)

namespace FdLoop

def create (stopFd : Fd) (opened : List Fd) : FdLoop κ := ⟨.create stopFd, opened⟩

/-- The entries of the batch that are still to be dispatched. -/
def pending (l : FdLoop κ) : List Fd :=
  match l.loop.pc with
  | .batch rest => rest
  | _ => []

def LowestFree (l : FdLoop κ) (fd : Fd) : Prop :=
  fd ∉ l.opened ∧ fd ∉ l.loop.em.events ∧ ∀ fd' < fd, fd' ∈ l.opened ∨ fd' ∈ l.loop.em.events

/-- What the operating system allows: `epoll_wait` reports registered descriptors, a timer or a
triggerable event gets the lowest free number, and a socket was opened before. -/
def Allows (l : FdLoop κ) : LoopAction κ → Prop
  | .poll triggered => triggered.Nodup ∧ ∀ fd ∈ triggered, fd ∈ l.loop.em.events
  | .newEvent fd readSize _ => readSize = 8 ∧ l.LowestFree fd ∨ readSize = 0 ∧ fd ∈ l.opened
  | _ => True

/-- A socket goes over to its event, which closes it. -/
def openedAfter (l : FdLoop κ) : LoopAction κ → List Fd
  | .newEvent fd 0 _ => l.opened.erase fd
  | _ => l.opened

end FdLoop

inductive FdStep : FdLoop κ → FdAction κ → List (LoopOutput κ) → FdLoop κ → Prop
  | machine {l : FdLoop κ} {a : LoopAction κ} {out : List (LoopOutput κ)} {l' : EventLoop κ} :
      l.Allows a → LoopStep l.loop a out l' → FdStep l (.machine a) out ⟨l', l.openedAfter a⟩
  | opens {l : FdLoop κ} {fd : Fd} :
      l.LowestFree fd → FdStep l (.opens fd) [] { l with opened := fd :: l.opened }
  | closes {l : FdLoop κ} {fd : Fd} :
      fd ∈ l.opened → FdStep l (.closes fd) [] { l with opened := l.opened.erase fd }

abbrev FdTrace (κ : Type) := List (FdAction κ × List (LoopOutput κ))

def FdRun (stopFd : Fd) (opened : List Fd) (tr : FdTrace κ) (l : FdLoop κ) : Prop :=
  Steps FdStep (FdLoop.create stopFd opened) tr l

def FdAction.polled : FdAction κ → Option (List Fd)
  | .machine (.poll triggered) => some triggered
  | _ => none

def FdAction.dispatches : FdAction κ → Bool
  | .machine (.dispatch _ _) => true
  | _ => false

def FdAction.registers : FdAction κ → Bool
  | .machine (.newEvent _ _ _) => true
  | _ => false

variable {l l' : FdLoop κ} {m m' : EventLoop κ} {a : FdAction κ} {out : List (LoopOutput κ)}
  {fd stopFd : Fd} {opened : List Fd} {tr : FdTrace κ} {evt : Event κ}

theorem pc_dispatch (m : EventLoop κ) (fd : Fd) (rest : List Fd) (keep : Bool) :
    (m.dispatch fd rest keep).1.pc = .batch rest := by
  rcases m.dispatch_cases fd rest keep with
    ⟨-, heq⟩ | ⟨e, -, -, heq⟩ | ⟨e, k, -, -, heq⟩
  all_goals rw [heq]

/-- What a dispatch leaves registered was registered. -/
theorem lookup_dispatch {rest : List Fd} {keep : Bool} {fd' : Fd}
    (h : (m.dispatch fd rest keep).1.em.events.lookup fd' = some evt) :
    m.em.events.lookup fd' = some evt := by
  rcases m.dispatch_cases fd rest keep with
    ⟨-, heq⟩ | ⟨e, -, -, heq⟩ | ⟨e, k, -, -, heq⟩
  · rw [heq] at h
    exact h
  · rw [heq] at h
    exact (EventMachine.lookup_stopHandler.mp h).1
  · rw [heq] at h
    cases keep with
    | true => exact h
    | false => exact lookup_of_erase h

/-- An event is registered after a step if it was before, or if the step created it. -/
theorem LoopStep.lookup_cases {a : LoopAction κ} (hs : LoopStep m a out m')
    (h : m'.em.events.lookup fd = some evt) : m.em.events.lookup fd = some evt ∨
      ∃ readSize k, a = .newEvent fd readSize k ∧ evt = ⟨m.em.nextPtr, fd, readSize, .user k⟩ := by
  cases hs with
  | startEM | poll | endBatch | leave | stopEM => exact Or.inl h
  | dispatch => exact Or.inl (lookup_dispatch h)
  | @newEvent fd' readSize k hfd =>
    by_cases heq : fd = fd'
    · subst heq
      exact Or.inr ⟨readSize, k, rfl, (Option.some.inj ((AList.lookup_insert _).symm.trans h)).symm⟩
    · exact Or.inl ((AList.lookup_insert_ne heq).symm.trans h)
  | cancelEvent hptr hcancel =>
    obtain ⟨e, -, -, rfl⟩ := EventMachine.cancelEvent_eq_ok.mp hcancel
    exact Or.inl (lookup_of_erase h)

theorem LoopStep.nextPtr_eq {a : LoopAction κ} (hs : LoopStep m a out m') :
    m'.em.nextPtr = m.em.nextPtr + if (FdAction.machine a).registers then 1 else 0 := by
  cases hs with
  | startEM | poll | endBatch | leave | stopEM | newEvent => rfl
  | @dispatch fd rest keep =>
    rcases m.dispatch_cases fd rest keep with
      ⟨-, heq⟩ | ⟨e, -, -, heq⟩ | ⟨e, k, -, -, heq⟩
    all_goals
      rw [heq]
      rfl
  | cancelEvent hptr hcancel =>
    obtain ⟨e, -, -, rfl⟩ := EventMachine.cancelEvent_eq_ok.mp hcancel
    rfl

/-- Only a poll puts entries into the batch. -/
theorem LoopStep.pending_subset {a : LoopAction κ} (hs : LoopStep m a out m')
    (ha : (FdAction.machine a).polled = none) (opened opened' : List Fd) :
    FdLoop.pending ⟨m', opened'⟩ ⊆ FdLoop.pending ⟨m, opened⟩ := by
  cases hs with
  | startEM | endBatch | leave => exact List.nil_subset _
  | poll => cases ha
  | stopEM | newEvent | cancelEvent => exact fun _ h => h
  | @dispatch fd rest keep hpc =>
    simp only [FdLoop.pending, pc_dispatch, hpc]
    exact List.subset_cons_self _ _

/-- The loop as a system that handles batches of descriptors. -/
def fdBatch (κ : Type) (stopFd : Fd) (opened : List Fd) :
    BatchLoop (FdLoop κ) (FdAction κ) (List (LoopOutput κ)) (Event κ) where
  step := FdStep
  init := .create stopFd opened
  table l fd := l.loop.em.events.lookup fd
  batch := FdLoop.pending
  polled := FdAction.polled
  batch_init := rfl
  poll := by
    intro l a out l' triggered hs ha
    cases hs with
    | opens | closes => cases ha
    | machine _ hstep =>
      cases hstep with
      | poll =>
        cases ha
        exact ⟨rfl, rfl⟩
      | _ => cases ha
  shrink := by
    intro l a out l' hs ha
    cases hs with
    | opens | closes => exact fun _ h => h
    | machine _ hstep => exact hstep.pending_subset ha _ _

/-- Every callback that a dispatch runs is that of an event under its own descriptor, which the
latest poll reported when the event was already registered. -/
def OnlyReadyCallbacks (stopFd : Fd) (opened : List Fd) (tr : FdTrace κ) : Prop :=
  ∀ pre fd keep out l l' evt, pre ++ [(.machine (.dispatch fd keep), out)] <+: tr →
    FdRun stopFd opened pre l → FdStep l (.machine (.dispatch fd keep)) out l' →
    l.loop.em.events.lookup fd = some evt →
    evt.fd = fd ∧ (fdBatch κ stopFd opened).Reported pre fd evt

/-- No new event gets a descriptor that is still to be dispatched. -/
def NoPendingReuse (stopFd : Fd) (opened : List Fd) (tr : FdTrace κ) : Prop :=
  ∀ pre fd readSize k out l l', pre ++ [(.machine (.newEvent fd readSize k), out)] <+: tr →
    FdRun stopFd opened pre l → FdStep l (.machine (.newEvent fd readSize k)) out l' →
    fd ∉ l.pending

/-- Events are stored under their descriptors, and are numbered as they are created. -/
structure EventsKeyed (tr : FdTrace κ) (em : EventMachine κ) : Prop where
  stopEvt : em.stopEvt = 0
  nextPtr : em.nextPtr = 1 + tr.countP (·.1.registers)
  keyed : ∀ fd evt, em.events.lookup fd = some evt → evt.fd = fd ∧ evt.ptr < em.nextPtr

theorem eventsKeyed_step (h : EventsKeyed tr l.loop.em) (hs : FdStep l a out l') :
    EventsKeyed (tr ++ [(a, out)]) l'.loop.em := by
  cases hs with
  | opens | closes => exact ⟨h.stopEvt, by simpa [FdAction.registers] using h.nextPtr, h.keyed⟩
  | machine _ hstep =>
    have hnext := hstep.nextPtr_eq
    refine ⟨hstep.effect.stopEvt.trans h.stopEvt, ?_, ?_⟩
    · rw [List.countP_append, List.countP_singleton, hnext, h.nextPtr]
      exact Nat.add_assoc _ _ _
    · intro fd evt hlook
      rcases hstep.lookup_cases hlook with hold | ⟨readSize, k, rfl, rfl⟩
      · obtain ⟨hfd, hptr⟩ := h.keyed fd evt hold
        exact ⟨hfd, by simp only [hnext]; omega⟩
      · refine ⟨rfl, ?_⟩
        simp [hnext, FdAction.registers]

theorem eventsKeyed_run (h : FdRun stopFd opened tr l) : EventsKeyed tr l.loop.em := by
  refine Steps.invariant (P := fun tr (l : FdLoop κ) => EventsKeyed tr l.loop.em) h ⟨rfl, rfl, ?_⟩
    (fun _ _ _ _ _ hi hs => eventsKeyed_step hi hs)
  intro fd evt hlook
  change (EventMachine.create stopFd : EventMachine κ).events.lookup fd = some evt at hlook
  rw [EventMachine.lookup_create] at hlook
  split_ifs at hlook with hfd
  cases hlook
  exact ⟨hfd.symm, Nat.zero_lt_one⟩

/-- A dispatched entry heads the batch. -/
theorem FdStep.pending_dispatch {keep : Bool}
    (hs : FdStep l (.machine (.dispatch fd keep)) out l') : fd ∈ l.pending := by
  cases hs with
  | machine _ hstep =>
    cases hstep with
    | dispatch hpc =>
      rw [FdLoop.pending, hpc]
      exact List.mem_cons_self

/-- Where no waiting number goes to a new event, only ready events are called. -/
theorem onlyReady_of_noPendingReuse (hno : NoPendingReuse stopFd opened tr) :
    OnlyReadyCallbacks stopFd opened tr := by
  intro pre fd keep out u u' evt hpre hu hdispatch hlook
  refine ⟨((eventsKeyed_run hu).keyed fd evt hlook).1, ?_⟩
  refine BatchLoop.reported_of_no_reuse (B := fdBatch κ stopFd opened) hu ?_ fd
    hdispatch.pending_dispatch evt hlook
  rintro pre' a out' v w hp hv hstep hpoll ⟨fd', hfd', evt', hnew, hold⟩
  cases hstep with
  | opens | closes => exact hold hnew
  | machine hallows hstep =>
    rcases hstep.lookup_cases hnew with h | ⟨readSize, k, rfl, -⟩
    · exact hold h
    · refine hno pre' fd' readSize k out' v _ ?_ hv (.machine hallows hstep) ?_
      · exact hp.trans ((List.prefix_append _ _).trans hpre)
      · exact (fdBatch κ stopFd opened).shrink (.machine hallows hstep) hpoll hfd'

/-- A dispatch whose callback keeps its event leaves the users' events alone. -/
theorem dispatch_keeps (hlook : m.em.events.lookup fd = some evt)
    (hptr : evt.ptr ≠ m.em.stopEvt) (entry : Fd) (rest : List Fd) :
    (m.dispatch entry rest true).1.em.events.lookup fd = some evt ∧
      (m.dispatch entry rest true).1.em.stopEvt = m.em.stopEvt := by
  rcases m.dispatch_cases entry rest true with
    ⟨-, heq⟩ | ⟨e, -, -, heq⟩ | ⟨e, k, -, -, heq⟩
  · rw [heq]
    exact ⟨hlook, rfl⟩
  · rw [heq]
    exact ⟨EventMachine.lookup_stopHandler.mpr ⟨hlook, hptr⟩, rfl⟩
  · rw [heq]
    exact ⟨hlook, rfl⟩

/-- The entries before a given one can be dispatched, and an event of a user outlives them. -/
theorem dispatch_until {before rest : List Fd} (hpc : l.loop.pc = .batch (before ++ rest))
    (hlook : l.loop.em.events.lookup fd = some evt) (hptr : evt.ptr ≠ l.loop.em.stopEvt) :
    ∃ ds l', Steps FdStep l ds l' ∧ (∀ x ∈ ds, x.1.dispatches = true) ∧
      l'.loop.pc = .batch rest ∧ l'.loop.em.events.lookup fd = some evt := by
  induction before generalizing l with
  | nil => exact ⟨[], l, .refl, by simp, hpc, hlook⟩
  | cons entry before ih =>
    have hstep : FdStep l (.machine (.dispatch entry true)) _ _ := .machine trivial (.dispatch hpc)
    obtain ⟨hlook', hstop⟩ := dispatch_keeps hlook hptr entry (before ++ rest)
    obtain ⟨ds, l', hrun, hds, hrest, hlast⟩ :=
      ih (l := ⟨_, _⟩) (pc_dispatch l.loop entry _ true) hlook' (hstop ▸ hptr)
    refine ⟨_, l', .cons hstep hrun, ?_, hrest, hlast⟩
    intro x hx
    rcases List.mem_cons.mp hx with rfl | hx
    · rfl
    · exact hds x hx

/-- The latest poll came before the steps that are known not to poll. -/
theorem not_reported_new {more : FdTrace κ} (hrun : FdRun stopFd opened tr l)
    (hmore : ∀ x ∈ more, x.1.polled = none) (hptr : l.loop.em.nextPtr ≤ evt.ptr) :
    ¬ (fdBatch κ stopFd opened).Reported (tr ++ more) fd evt := by
  rintro ⟨pre, a, o, mid, numbers, u, htr, hpoll, -, hu, -, hlook⟩
  rcases List.append_eq_append_iff.mp htr with ⟨as, -, hmore_eq⟩ | ⟨bs, htr_eq, -⟩
  · have hnone := hmore (a, o) (by rw [hmore_eq]; simp)
    change a.polled = none at hnone
    change a.polled = some numbers at hpoll
    rw [hnone] at hpoll
    cases hpoll
  · -- the poll is older than the event
    have hcount : pre.countP (·.1.registers) ≤ tr.countP (·.1.registers) := by
      rw [htr_eq, List.countP_append]
      exact Nat.le_add_right _ _
    have hold := (eventsKeyed_run hu).keyed fd evt hlook
    rw [(eventsKeyed_run hu).nextPtr] at hold
    rw [(eventsKeyed_run hrun).nextPtr] at hptr
    omega

theorem FdAction.polled_of_dispatches (h : a.dispatches = true) : a.polled = none := by
  cases a with
  | machine a => cases a <;> first | rfl | cases h
  | opens | closes => rfl

/-- A new event under a waiting number, and the batch that leads to it. -/
theorem newEvent_waits {readSize : ℕ} {k : κ} (h : EventsKeyed tr l.loop.em)
    (hs : FdStep l (.machine (.newEvent fd readSize k)) out l') (hmem : fd ∈ l.pending) :
    ∃ before rest, l'.loop.pc = .batch (before ++ fd :: rest) ∧
      l'.loop.em.events.lookup fd = some ⟨l.loop.em.nextPtr, fd, readSize, .user k⟩ ∧
      l.loop.em.nextPtr ≠ l'.loop.em.stopEvt := by
  cases hs with
  | machine hallows hstep =>
    cases hstep with
    | newEvent hfd =>
      unfold FdLoop.pending at hmem
      split at hmem
      · rename_i batch hpc
        obtain ⟨before, rest, rfl⟩ := List.append_of_mem hmem
        refine ⟨before, rest, hpc, AList.lookup_insert _, ?_⟩
        change l.loop.em.nextPtr ≠ l.loop.em.stopEvt
        rw [h.stopEvt, h.nextPtr]
        omega
      · cases hmem

/-- A new event under a waiting number is called before it was reported, as soon as the rest of
the batch is handled. -/
theorem reuse_exposed {readSize : ℕ} {k : κ} (hrun : FdRun stopFd opened tr l)
    (hs : FdStep l (.machine (.newEvent fd readSize k)) out l') (hmem : fd ∈ l.pending) :
    ∃ ds l'', FdRun stopFd opened (tr ++ (.machine (.newEvent fd readSize k), out) :: ds) l'' ∧
      (∀ x ∈ ds, x.1.dispatches = true) ∧
      ¬ OnlyReadyCallbacks stopFd opened
        (tr ++ (.machine (.newEvent fd readSize k), out) :: ds) := by
  obtain ⟨before, rest, hpc, hlook, hptr⟩ := newEvent_waits (eventsKeyed_run hrun) hs hmem
  obtain ⟨ds, u, hds, hall, hu, hlast⟩ := dispatch_until hpc hlook hptr
  have hrun' : FdRun stopFd opened
      (tr ++ (.machine (.newEvent fd readSize k), out) :: ds) u := hrun.trans (.cons hs hds)
  obtain ⟨out', u', hdispatch⟩ : ∃ out' u', FdStep u (.machine (.dispatch fd true)) out' u' :=
    ⟨_, _, .machine trivial (.dispatch hu)⟩
  refine ⟨ds ++ [(.machine (.dispatch fd true), out')], u', ?_, ?_, ?_⟩
  · rw [← List.cons_append, ← List.append_assoc]
    exact hrun'.snoc hdispatch
  · intro x hx
    rcases List.mem_append.mp hx with hx | hx
    · exact hall x hx
    · rw [List.mem_singleton.mp hx]
      rfl
  · intro hready
    rw [← List.cons_append, ← List.append_assoc] at hready
    have hreported := (hready _ fd true out' u u' _ (List.prefix_refl _) hrun' hdispatch hlast).2
    refine not_reported_new hrun ?_ (le_refl _) hreported
    intro x hx
    rcases List.mem_cons.mp hx with rfl | hx
    · rfl
    · exact FdAction.polled_of_dispatches (hall x hx)

/-- Handling what is left of a batch registers nothing. -/
theorem NoPendingReuse.dispatches {ds : FdTrace κ} (h : NoPendingReuse stopFd opened tr)
    (hds : ∀ x ∈ ds, x.1.dispatches = true) : NoPendingReuse stopFd opened (tr ++ ds) := by
  induction ds using List.reverseRecOn with
  | nil => rwa [List.append_nil]
  | append_singleton ds d ih =>
    intro pre fd readSize k out l l' hpre hl hs
    rw [← List.append_assoc] at hpre
    rcases List.prefix_concat_iff.mp hpre with heq | hpre
    · obtain ⟨-, hlast⟩ := List.append_inj' heq rfl
      have hd := hds d (by simp)
      rw [← List.singleton_inj.mp hlast] at hd
      cases hd
    · exact ih (fun x hx => hds x (List.mem_append_left _ hx)) pre fd readSize k out l l' hpre hl hs

theorem NoPendingReuse.of_prefix {pre : FdTrace κ} (h : NoPendingReuse stopFd opened tr)
    (hpre : pre <+: tr) : NoPendingReuse stopFd opened pre := by
  intro pre' fd readSize k out l l' hpre' hl hs
  exact h pre' fd readSize k out l l' (hpre'.trans hpre) hl hs

/-- No waiting number is reused in a run exactly when at each of its points the rest of the batch
could be handled with callbacks of ready events only. -/
theorem noPendingReuse_iff : NoPendingReuse stopFd opened tr ↔
    ∀ pre ds l, pre <+: tr → FdRun stopFd opened (pre ++ ds) l →
      (∀ x ∈ ds, x.1.dispatches = true) → OnlyReadyCallbacks stopFd opened (pre ++ ds) := by
  constructor
  · intro hno pre ds l hpre _ hds
    exact onlyReady_of_noPendingReuse ((hno.of_prefix hpre).dispatches hds)
  · intro hall pre fd readSize k out l l' hpre hl hs hmem
    obtain ⟨ds, u, hrun, hds, hnot⟩ := reuse_exposed hl hs hmem
    rw [List.append_cons] at hrun hnot
    exact hnot (hall _ ds u hpre hrun hds)

end Pc2Drc
