import Mathlib.Data.List.TakeWhile
import Pc2Drc.UdpServer

/-! Which lives of a UDP server keep its descriptors in order. -/
namespace Pc2Drc
open Lib

namespace UdpServer

variable {u u' : UdpServer} {fd : Fd} {n : ℕ} {op : UdpOp} {ops : List UdpOp}

/-- The server after a start: its socket is also held by a registered event. -/
structure Started (u : UdpServer) : Prop where
  fresh : u.em.stopEvt < u.em.nextPtr
  running : u.em.running = true
  socket : ∃ fd evt, u.sockFd = some fd ∧ u.em.events.lookup fd = some evt ∧ evt.fd = fd ∧
    evt.ptr ≠ u.em.stopEvt

/-- The server after its first stop: an event is left that holds the closed socket, and the stop
event is gone. -/
structure Stopped (u : UdpServer) : Prop where
  fresh : u.em.stopEvt < u.em.nextPtr
  running : u.em.running = false
  sockFd : u.sockFd = none
  gone : StopEventGone u.em
  stale : ∃ fd evt a b, u.log = a ++ .closed fd :: b ∧ .opened fd true ∉ b ∧
    u.em.events.lookup fd = some evt ∧ evt.fd = fd

theorem newEvent_em (u : UdpServer) (fd : Fd) (readSize : ℕ) (cb : Callback UdpEvent) :
    (u.newEvent fd readSize cb).em = (u.em.newEvent fd readSize cb).1 :=
  (destroyEvents_em _ _).1

theorem newEvent_sockFd (u : UdpServer) (fd : Fd) (readSize : ℕ) (cb : Callback UdpEvent) :
    (u.newEvent fd readSize cb).sockFd = u.sockFd :=
  (destroyEvents_em _ _).2.1

theorem newEvent_log (u : UdpServer) (fd : Fd) (readSize : ℕ) (cb : Callback UdpEvent) :
    u.log <+: (u.newEvent fd readSize cb).log := by
  rw [newEvent, destroyEvents_log]
  exact List.prefix_append _ _

/-- A new event is a user's and has a pointer of its own, so it is not the stop event. -/
theorem gone_newEvent {em : EventMachine UdpEvent} (hg : StopEventGone em)
    (hfresh : em.stopEvt < em.nextPtr) (fd : Fd) (readSize : ℕ) (cb : Callback UdpEvent) :
    StopEventGone (em.newEvent fd readSize cb).1 := by
  intro fd' evt hlook
  by_cases heq : fd' = fd
  · subst heq
    obtain rfl := Option.some.inj ((AList.lookup_insert _).symm.trans hlook)
    exact hfresh.ne'
  · exact hg fd' evt ((AList.lookup_insert_ne heq).symm.trans hlook)

theorem stopFd?_of_gone {em : EventMachine UdpEvent} (hg : StopEventGone em) :
    em.stopFd? = none := by
  rw [EventMachine.stopFd?, Option.map_eq_none_iff, List.find?_eq_none]
  rintro ⟨fd, evt⟩ hmem
  have hlook : evt ∈ em.events.lookup fd := AList.mem_lookup_iff.mpr hmem
  simpa using hg fd evt hlook

/-- A launched server: the machine has two events more, under the timer and under the socket. -/
theorem launch_spec (u : UdpServer) (n : ℕ) : ∃ sockFd timerFd,
    (u.launch n).1.em = ((({ u.em with running := true } : EventMachine UdpEvent).newEvent timerFd 8
      (.user .timeout)).1.newEvent sockFd 0 (.user .socket)).1 ∧
    (u.launch n).1.sockFd = some sockFd ∧ u.log <+: (u.launch n).1.log := by
  let v : UdpServer := { (u.openFd true).1 with
    sockFd := some (u.openFd true).2
    em := { u.em with running := true } }
  obtain ⟨hem, hsock, -, -, fds, -, hlog⟩ := otherOpens_spec v n
  refine ⟨(u.openFd true).2, lowestFree (v.otherOpens n).openFds, ?_, ?_, ?_⟩
  · simp only [launch, initEvents, newEvent_em]
    exact congrArg (fun em : EventMachine UdpEvent => ((em.newEvent _ 8 _).1.newEvent _ 0 _).1) hem
  · simp only [launch, initEvents, newEvent_sockFd]
    exact hsock
  · have hv : u.log <+: (v.otherOpens n).log := by
      rw [hlog]
      exact (List.prefix_append _ _).trans (List.prefix_append _ _)
    simp only [launch, initEvents]
    refine List.IsPrefix.trans ?_ (newEvent_log _ _ _ _)
    refine List.IsPrefix.trans ?_ (newEvent_log _ _ _ _)
    exact hv.trans (List.prefix_append _ _)

theorem start_log (u : UdpServer) (n : ℕ) : u.log <+: (u.start n).log := by
  obtain ⟨-, -, -, -, hlog⟩ := launch_spec u n
  exact hlog.trans (List.prefix_append _ _)

theorem started_start (hfresh : u.em.stopEvt < u.em.nextPtr) (n : ℕ) : Started (u.start n) := by
  obtain ⟨sockFd, timerFd, hem, hsock, -⟩ := launch_spec u n
  have hem' : (u.start n).em = (u.launch n).1.em := rfl
  refine ⟨?_, ?_, sockFd, ⟨u.em.nextPtr + 1, sockFd, 0, .user .socket⟩, hsock, ?_, rfl, ?_⟩
  all_goals rw [hem', hem]
  · exact Nat.lt_succ_of_lt (Nat.lt_succ_of_lt hfresh)
  · rfl
  · exact AList.lookup_insert _
  · exact (Nat.lt_succ_of_lt hfresh).ne'

/-- A second start finds no stop event to register with. -/
theorem started_false (h : Stopped u) (n : ℕ) : .started false ∈ (u.start n).log := by
  obtain ⟨sockFd, timerFd, hem, -⟩ := launch_spec u n
  have hgone : StopEventGone (u.launch n).1.em := by
    rw [hem]
    exact gone_newEvent (gone_newEvent h.gone h.fresh _ _ _) (Nat.lt_succ_of_lt h.fresh) _ _ _
  have hstop : (u.launch n).1.holdsStop = false := by
    rw [holdsStop, stopFd?_of_gone hgone]
  rw [start]
  simp [hstop]

/-- Stopping closes the socket and leaves its event, which will close it once more. -/
theorem Started.stop (h : Started u) (hstop : u.stop = .ok u') : Stopped u' := by
  obtain ⟨fd, evt, hsock, hlook, hfd, hptr⟩ := h.socket
  obtain ⟨u₁, hem, hret⟩ := bind_eq_ok.mp hstop
  rw [stopEM, if_pos h.running] at hem
  split at hem
  · cases hem
    cases hret
    rw [closeSocket, (destroyEvents_em _ _).2.1]
    simp only [hsock]
    refine ⟨?_, ?_, rfl, ?_, fd, evt, _, [], rfl, by simp, ?_, hfd⟩
    all_goals simp only [close, (destroyEvents_em _ _).1]
    · exact h.fresh
    · rfl
    · exact fun fd evt hlook => (EventMachine.lookup_stopHandler.mp hlook).2
    · exact EventMachine.lookup_stopHandler.mpr ⟨hlook, hptr⟩
  · cases hem

theorem stop_log (hstop : u.stop = .ok u') : u.log <+: u'.log := by
  obtain ⟨u₁, hem, hret⟩ := bind_eq_ok.mp hstop
  have h₁ : u.log <+: u₁.log := by
    unfold stopEM at hem
    split_ifs at hem
    · split at hem
      · cases hem
        rw [destroyEvents_log]
        exact List.prefix_append _ _
      · cases hem
    · cases hem
      exact List.prefix_rfl
  cases hret
  refine h₁.trans ?_
  unfold closeSocket
  split
  · exact List.prefix_rfl
  · exact List.prefix_append _ _

/-- The history only grows, up to the end of the server's life. -/
theorem run_log (hrun : u.run ops = .ok u') : u.log <+: u'.log := by
  induction ops generalizing u with
  | nil =>
    cases hrun
    exact List.prefix_rfl
  | cons op ops ih =>
    obtain ⟨u₁, happly, hrun⟩ := bind_eq_ok.mp hrun
    refine List.IsPrefix.trans ?_ (ih hrun)
    cases op with
    | start n =>
      cases happly
      exact start_log u n
    | stop => exact stop_log happly
    | otherOpens n =>
      cases happly
      obtain ⟨-, -, -, -, fds, -, hlog⟩ := otherOpens_spec u n
      rw [hlog]
      exact List.prefix_append _ _

theorem destroy_log (hd : u.destroy = .ok u') : u.log <+: u'.log := by
  obtain ⟨u₁, hstop, hret⟩ := bind_eq_ok.mp hd
  cases hret
  rw [destroyEvents_log]
  exact (stop_log hstop).trans ((List.prefix_append _ _).trans (List.prefix_append _ _))

/-- A history in which something was closed that was not open and ours, or a start went wrong. -/
def Broken (log : List FdEvent) : Prop :=
  .started false ∈ log ∨ ∃ pre fd, pre ++ [.closed fd] <+: log ∧ ¬ OpenOurs fd pre

theorem Broken.mono {log log' : List FdEvent} (h : Broken log) (hpre : log <+: log') :
    Broken log' := by
  rcases h with h | ⟨pre, fd, hclose, hno⟩
  · exact Or.inl (hpre.subset h)
  · exact Or.inr ⟨pre, fd, hclose.trans hpre, hno⟩

theorem Broken.not_owns (h : Broken u.log) : ¬ OwnsDescriptors u := by
  intro howns
  rcases h with h | ⟨pre, fd, ⟨post, hlog⟩, hno⟩
  · exact howns.started h
  · exact hno (howns.own pre fd post (by rw [← hlog, List.append_assoc]; rfl))

/-- After a close a descriptor is ours again only when it was opened again. -/
theorem not_openOurs {a b : List FdEvent} (hno : .opened fd true ∉ b) :
    ¬ OpenOurs fd (a ++ .closed fd :: b) := by
  rintro ⟨a', b', heq, hclosed⟩
  rcases List.append_eq_append_iff.mp heq with ⟨c, rfl, hc⟩ | ⟨c, rfl, hc⟩
  · cases c with
    | nil => cases hc
    | cons e c =>
      injection hc with _ hb
      exact hno (hb ▸ by simp)
  · cases c with
    | nil => cases hc
    | cons e c =>
      injection hc with _ hb
      exact hclosed (hb ▸ by simp)

theorem stop_self (hr : u.em.running = false) (hsock : u.sockFd = none) : u.stop = .ok u := by
  have hem : u.stopEM = .ok u := by
    rw [stopEM, hr, if_neg Bool.false_ne_true]
  have hclose : u.closeSocket = u := by
    rw [closeSocket, hsock]
  rw [stop, hem]
  exact congrArg Except.ok hclose

/-- The event that was left closes its descriptor a second time when the server is destroyed. -/
theorem Stopped.destroy_broken (h : Stopped u) (hd : u.destroy = .ok u') : Broken u'.log := by
  obtain ⟨fd, evt, a, b, hlog, hno, hlook, rfl⟩ := h.stale
  have hmem : ⟨evt.fd, evt⟩ ∈ u.em.events.entries := AList.mem_lookup_iff.mp hlook
  obtain ⟨xs, ys, hentries⟩ := List.append_of_mem hmem
  obtain ⟨u₁, hstop, hret⟩ := bind_eq_ok.mp hd
  cases (stop_self h.running h.sockFd).symm.trans hstop
  cases hret
  refine Or.inr
    ⟨a ++ .closed evt.fd :: (b ++ .closed u.epollFd :: xs.map (FdEvent.closed ·.2.fd)), evt.fd,
      ⟨ys.map (FdEvent.closed ·.2.fd), ?_⟩, not_openOurs ?_⟩
  · rw [destroyEvents_log]
    simp [close, hentries, hlog, Function.comp_def]
  · simpa using hno

theorem Stopped.otherOpens (h : Stopped u) (n : ℕ) : Stopped (u.otherOpens n) := by
  obtain ⟨hem, hsock, -, -, fds, -, hlog⟩ := otherOpens_spec u n
  obtain ⟨fd, evt, a, b, hu, hno, hlook, hfd⟩ := h.stale
  refine ⟨hem ▸ h.fresh, hem ▸ h.running, hsock.trans h.sockFd, hem ▸ h.gone, fd, evt, a,
    b ++ fds.map (FdEvent.opened · false), ?_, ?_, hem ▸ hlook, hfd⟩
  · rw [hlog, hu]
    simp
  · simpa using hno

theorem Started.otherOpens (h : Started u) (n : ℕ) : Started (u.otherOpens n) := by
  obtain ⟨hem, hsock, -⟩ := otherOpens_spec u n
  obtain ⟨fd, evt, hu, hlook, hfd, hptr⟩ := h.socket
  exact ⟨hem ▸ h.fresh, hem ▸ h.running, fd, evt, hsock.trans hu, hem ▸ hlook, hfd, hem ▸ hptr⟩

theorem Stopped.broken (h : Stopped u) (halt : Alternates false ops) (hrun : u.run ops = .ok u')
    {v : UdpServer} (hd : u'.destroy = .ok v) : Broken v.log := by
  induction ops generalizing u with
  | nil =>
    cases hrun
    exact h.destroy_broken hd
  | cons op ops ih =>
    obtain ⟨u₁, happly, hrun'⟩ := bind_eq_ok.mp hrun
    cases op with
    | start n =>
      cases happly
      have hbroken : Broken (u.start n).log := Or.inl (started_false h n)
      exact hbroken.mono ((run_log hrun').trans (destroy_log hd))
    | stop => cases halt.1
    | otherOpens n =>
      cases happly
      exact ih (h.otherOpens n) halt hrun'

theorem Started.broken (h : Started u) (halt : Alternates true ops) (hrun : u.run ops = .ok u')
    {v : UdpServer} (hd : u'.destroy = .ok v) : Broken v.log := by
  induction ops generalizing u with
  | nil =>
    cases hrun
    -- the destructor stops the server first
    obtain ⟨u₁, hstop, hret⟩ := bind_eq_ok.mp hd
    have h₁ := h.stop hstop
    refine h₁.destroy_broken ?_
    rw [destroy, stop_self h₁.running h₁.sockFd]
    exact hret
  | cons op ops ih =>
    obtain ⟨u₁, happly, hrun'⟩ := bind_eq_ok.mp hrun
    cases op with
    | start n => cases halt.1
    | stop => exact (h.stop happly).broken halt.2 hrun' hd
    | otherOpens n =>
      cases happly
      exact ih (h.otherOpens n) halt hrun'

/-- A server that is started at all ends with a broken history, if it ends. -/
theorem broken_of_start (hfresh : u.em.stopEvt < u.em.nextPtr) (halt : Alternates false ops)
    (hmem : .start n ∈ ops) (hrun : u.run ops = .ok u') {v : UdpServer}
    (hd : u'.destroy = .ok v) : Broken v.log := by
  induction ops generalizing u with
  | nil => cases hmem
  | cons op ops ih =>
    obtain ⟨u₁, happly, hrun'⟩ := bind_eq_ok.mp hrun
    cases op with
    | start m =>
      cases happly
      exact (started_start hfresh m).broken halt.2 hrun' hd
    | stop => cases halt.1
    | otherOpens m =>
      cases happly
      obtain ⟨hem, -⟩ := otherOpens_spec u m
      have hmem' : .start n ∈ ops := by simpa using hmem
      exact ih (hem ▸ hfresh) halt hmem' hrun'

theorem otherOpens_add (u : UdpServer) (n m : ℕ) :
    (u.otherOpens n).otherOpens m = u.otherOpens (n + m) := by
  induction n generalizing u with
  | zero => simp [UdpServer.otherOpens]
  | succ n ih =>
    rw [Nat.succ_add]
    exact ih (u.openFd false).1

/-- A server that is never started is never stopped either: only other code acts. -/
theorem run_idle (halt : Alternates false ops) (hno : ∀ n, .start n ∉ ops) (u : UdpServer) :
    ∃ m, u.run ops = .ok (u.otherOpens m) := by
  induction ops generalizing u with
  | nil => exact ⟨0, rfl⟩
  | cons op ops ih =>
    cases op with
    | start n => exact (hno n List.mem_cons_self).elim
    | stop => cases halt.1
    | otherOpens n =>
      obtain ⟨m, hm⟩ := ih halt (fun k hk => hno k (List.mem_cons_of_mem _ hk)) (u.otherOpens n)
      exact ⟨n + m, by rw [← otherOpens_add]; exact hm⟩

/-- The history of a server that is never started: `e` and `s` are its own, other code opens
`fds`. -/
def idleLog (e s : Fd) (fds : List Fd) : List FdEvent :=
  .opened e true :: .opened s true ::
    (fds.map (FdEvent.opened · false) ++ [.closed e] ++ [.closed s])

theorem lifetime_idle (openFds : Finset Fd) (m : ℕ) : ∃ (e s : Fd) (fds : List Fd) (u : UdpServer),
    e ≠ s ∧ e ∉ fds ∧ s ∉ fds ∧ ((create openFds).otherOpens m).destroy = .ok u ∧
    u.log = idleLog e s fds := by
  obtain ⟨hem, hsock, hepoll, -, fds, hnew, hlog⟩ := otherOpens_spec (create openFds) m
  have hstop : ((create openFds).otherOpens m).stop = .ok ((create openFds).otherOpens m) :=
    stop_self (hem ▸ rfl) (hsock.trans rfl)
  have hopen : (create openFds).openFds = insert (lowestFree (insert (lowestFree openFds) openFds))
    (insert (lowestFree openFds) openFds) := rfl
  refine ⟨lowestFree openFds, lowestFree (insert (lowestFree openFds) openFds), fds, _, ?_, ?_, ?_,
    by rw [destroy, hstop]; rfl, ?_⟩
  · intro h
    exact lowestFree_notMem (insert (lowestFree openFds) openFds)
      (h ▸ Finset.mem_insert_self _ _)
  · intro h
    exact hnew _ h (by simp [hopen])
  · intro h
    exact hnew _ h (by simp [hopen])
  · rw [destroyEvents_log]
    simp only [close, hem, hepoll, hlog]
    rfl

/-- Closed once in a history that never opens it again. -/
theorem count_closed {post : List FdEvent} (hcount : post.count (.closed fd) = 1)
    (hother : .opened fd false ∉ post) (hours : .opened fd true ∉ post) :
    (post.takeWhile fun e => e ≠ .opened fd true ∧ e ≠ .opened fd false).count (.closed fd) =
      1 := by
  rw [List.takeWhile_eq_self_iff.mpr, hcount]
  intro x hx
  have h₁ : x ≠ .opened fd true := ne_of_mem_of_not_mem hx hours
  have h₂ : x ≠ .opened fd false := ne_of_mem_of_not_mem hx hother
  simp [h₁, h₂]

theorem owns_idle {e s : Fd} {fds : List Fd} (hes : e ≠ s) (he : e ∉ fds) (hs : s ∉ fds)
    (hlog : u.log = idleLog e s fds) : OwnsDescriptors u where
  own := by
    intro pre fd post heq
    have hsnoc : (.opened e true :: .opened s true :: fds.map (FdEvent.opened · false)) ++
        [.closed e] ++ [.closed s] = pre ++ .closed fd :: post := hlog.symm.trans heq
    rcases snoc_eq_split hsnoc with ⟨-, rfl, h⟩ | ⟨post', -, heq⟩
    · cases h
      exact ⟨[.opened e true], fds.map (FdEvent.opened · false) ++ [.closed e], rfl,
        by simp [hes.symm]⟩
    rcases snoc_eq_split heq with ⟨-, rfl, h⟩ | ⟨post'', -, heq⟩
    · cases h
      exact ⟨[], .opened s true :: fds.map (FdEvent.opened · false), rfl, by simp⟩
    · have hmem : .closed fd ∈ pre ++ .closed fd :: post'' := by simp
      rw [← heq] at hmem
      simp at hmem
  once := by
    intro pre fd post heq
    rw [hlog] at heq
    rcases pre with _ | ⟨x, pre⟩
    · cases heq
      refine count_closed ?_ (by simp [he]) (by simp [hes])
      simp [List.count_eq_zero, hes.symm]
    rcases pre with _ | ⟨y, pre⟩
    · cases heq
      refine count_closed ?_ (by simp [hs]) (by simp)
      simp [List.count_eq_zero, hes]
    · have hpre := (List.cons.inj (List.cons.inj heq).2).2
      have hmem : .opened fd true ∈ pre.append (.opened fd true :: post) := by simp
      rw [← hpre] at hmem
      simp at hmem
  started := by simp [hlog, idleLog]

end UdpServer

/-- A server keeps its descriptors in order exactly when it is never started. -/
theorem ownsDescriptors_iff (openFds : Finset Fd) {ops : List UdpOp}
    (halt : Alternates false ops) :
    (∃ u, UdpServer.lifetime openFds ops = .ok u ∧ OwnsDescriptors u) ↔ ∀ n, .start n ∉ ops := by
  constructor
  · rintro ⟨u, hlife, howns⟩ n hmem
    obtain ⟨u₁, hrun, hd⟩ := bind_eq_ok.mp hlife
    exact (UdpServer.broken_of_start Nat.zero_lt_one halt hmem hrun hd).not_owns howns
  · intro hno
    obtain ⟨m, hrun⟩ := UdpServer.run_idle halt hno (.create openFds)
    obtain ⟨e, s, fds, u, hes, he, hs, hd, hlog⟩ := UdpServer.lifetime_idle openFds m
    exact ⟨u, bind_eq_ok.mpr ⟨_, hrun, hd⟩, UdpServer.owns_idle hes he hs hlog⟩

/-- The theorem at a server that is built and destroyed while other code opens a descriptor. -/
theorem ownsDescriptors_idle : ∃ u, UdpServer.lifetime {0, 1, 2} [.otherOpens 1] = .ok u ∧
    OwnsDescriptors u := by
  have halt : Alternates false [.otherOpens 1] := trivial
  exact (ownsDescriptors_iff {0, 1, 2} halt).mpr (by simp)

/-- Whatever order the two events that are left are destroyed in, the socket is closed again. -/
theorem UdpServer.not_owns_ended {ended : List FdEvent}
    (hperm : ended.Perm [.closed 5, .closed 6])
    (hlog : u.log = [.opened 3 true, .opened 4 true, .opened 5 true, .opened 6 true, .started true,
      .closed 4, .closed 5, .closed 3] ++ ended) : ¬ OwnsDescriptors u := by
  obtain ⟨a, b, rfl⟩ := List.append_of_mem (hperm.mem_iff.mpr List.mem_cons_self)
  have hno : .opened 5 true ∉ .closed 3 :: a := by
    intro hmem
    have hnot : .opened 5 true ∉ a ++ .closed 5 :: b := fun h => by
      simpa using hperm.mem_iff.mp h
    rcases List.mem_cons.mp hmem with h | h
    · cases h
    · exact hnot (List.mem_append_left _ h)
  intro howns
  have hours := howns.own ([.opened 3 true, .opened 4 true, .opened 5 true, .opened 6 true,
    .started true, .closed 4] ++ .closed 5 :: .closed 3 :: a) 5 b hlog
  exact UdpServer.not_openOurs hno hours

/-- One start and one stop: the socket, 5, is closed by the stop and again when the map of events is
destroyed, whichever of its two events goes first. -/
theorem socket_closed_twice : Alternates false [.start 0, .stop] ∧
    ∃ u pre ended, UdpServer.lifetime {0, 1, 2} [.start 0, .stop] = .ok u ∧
      pre = [.opened 3 true, .opened 4 true, .opened 5 true, .opened 6 true, .started true,
        .closed 4, .closed 5, .closed 3] ∧
      u.log = pre ++ ended ∧ ended.Perm [.closed 5, .closed 6] ∧ ¬ OwnsDescriptors u ∧
      ∀ ended', ended'.Perm ended → ¬ OwnsDescriptors { u with log := pre ++ ended' } :=
  ⟨⟨rfl, rfl, trivial⟩, _, _, [.closed 5, .closed 6], rfl, rfl, by decide, List.Perm.refl _,
    UdpServer.not_owns_ended (List.Perm.refl _) (by decide),
    fun _ hperm => UdpServer.not_owns_ended hperm rfl⟩

end Pc2Drc
