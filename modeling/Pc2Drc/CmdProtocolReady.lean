import Pc2Drc.CmdProtocolCompletion
import Pc2Drc.CmdProtocolTimers
import Pc2Drc.EventLoopDescriptors

/-! Which timer a retry of the command client answers to: the one that expired, unless its number
was given to another query's timer in the meantime. -/
namespace Pc2Drc
open Lib

variable {κ : Type} {c c' : CmdClient κ} {l l' : CmdLoop κ} {a : CmdLoopAction κ}
  {out : List (CmdOutput κ)} {stopFd fd : Fd} {evt : Event CmdEvent} {tr : CmdLoopTrace κ}

def CmdLoopAction.polled : CmdLoopAction κ → Option (List Fd)
  | .poll triggered => some triggered
  | _ => none

/-- The descriptor of the timer that a step may create. -/
def CmdLoopAction.newTimer : CmdLoopAction κ → Option Fd
  | .asyncQuery _ _ _ fd => some fd
  | .dispatch fd => some fd
  | _ => none

/-- The entries that are left to dispatch once a step is done, unless it polls. -/
def CmdLoop.pendingAfter (l : CmdLoop κ) : CmdLoopAction κ → List Fd
  | .dispatch _ => l.batch.tail
  | _ => l.batch

theorem CmdLoopStep.batch_eq (hs : CmdLoopStep l a out l') (ha : a.polled = none) :
    l'.batch = l.pendingAfter a := by
  obtain ⟨hen, hhandle⟩ := hs
  cases a with
  | asyncQuery qtype payload cb fd =>
    obtain ⟨r, -, hret⟩ := bind_eq_ok.mp hhandle
    cases hret
    rfl
  | packetReceived msg =>
    obtain ⟨r, -, hret⟩ := bind_eq_ok.mp hhandle
    cases hret
    rfl
  | poll triggered => cases ha
  | dispatch fd =>
    obtain ⟨entry, rest, hbatch⟩ := List.exists_cons_of_ne_nil hen.2
    simp only [CmdLoop.handle, hbatch] at hhandle
    obtain ⟨r, -, hret⟩ := bind_eq_ok.mp hhandle
    cases hret
    simp [CmdLoop.pendingAfter, hbatch]

/-- The client's loop as a system that handles batches of descriptors. -/
def cmdBatch (κ : Type) (stopFd : Fd) :
    BatchLoop (CmdLoop κ) (CmdLoopAction κ) (List (CmdOutput κ)) (Event CmdEvent) where
  step := CmdLoopStep
  init := .create stopFd
  table l fd := l.client.em.events.lookup fd
  batch := CmdLoop.batch
  polled := CmdLoopAction.polled
  batch_init := rfl
  poll := by
    rintro l a out l' triggered ⟨-, hhandle⟩ ha
    cases a with
    | poll triggered =>
      cases ha
      cases hhandle
      exact ⟨rfl, rfl⟩
    | _ => cases ha
  shrink := by
    intro l a out l' hs ha
    rw [hs.batch_eq ha]
    cases a with
    | dispatch => exact List.tail_subset _
    | _ => exact fun _ h => h

/-- A timer is registered after a step of the client if it was before, or if the step created it. -/
theorem CmdStep.lookup_cases {b : CmdAction κ} (hs : CmdStep c b out c')
    (h : c'.em.events.lookup fd = some evt) : c.em.events.lookup fd = some evt ∨
      (∃ qtype payload cb, b = .asyncQuery qtype payload cb fd) ∨ ∃ fired, b = .timer fired fd := by
  cases hs.effect with
  | @issued qtype payload cb fd' hfd =>
    rw [CmdClient.events_sentClient] at h
    by_cases heq : fd = fd'
    · subst heq
      exact Or.inr (Or.inl ⟨qtype, payload, cb, rfl⟩)
    · exact Or.inl ((AList.lookup_insert_ne heq).symm.trans h)
  | ignored | acked => exact Or.inl h
  | replied | failed => exact Or.inl (lookup_of_erase h)
  | @retried fired seqid fd' st =>
    have hsent := lookup_of_erase h
    rw [CmdClient.events_sentClient] at hsent
    by_cases heq : fd = fd'
    · subst heq
      exact Or.inr (Or.inr ⟨fired, rfl⟩)
    · exact Or.inl ((AList.lookup_insert_ne heq).symm.trans hsent)

theorem CmdLoopStep.lookup_cases (hi : CmdLoopInv l) (hs : CmdLoopStep l a out l')
    (h : l'.client.em.events.lookup fd = some evt) :
    l.client.em.events.lookup fd = some evt ∨ a.newTimer = some fd := by
  rcases hs.client_cases hi with ⟨hsame, -⟩ | ⟨hstop, -⟩ | ⟨b, hruns, hstep⟩
  · rw [hsame] at h
    exact Or.inl h
  · rw [hstop] at h
    exact Or.inl (EventMachine.lookup_stopHandler.mp h).1
  · rcases hstep.lookup_cases h with h | ⟨qtype, payload, cb, rfl⟩ | ⟨fired, rfl⟩
    · exact Or.inl h
    · cases hruns
      exact Or.inr rfl
    · cases hruns
      exact Or.inr rfl

/-- A step sends a query again or gives it up, or its timer's callback runs. -/
def CmdLoopAction.Retries (a : CmdLoopAction κ) (query : ℕ) (out : List (CmdOutput κ)) : Prop :=
  ((∀ qtype payload cb fd, a ≠ .asyncQuery qtype payload cb fd) ∧
      ∃ bytes, .query query bytes ∈ out) ∨
    (∃ cb data, .replyCallback query cb false data ∈ out) ∨ .expired query ∈ out

/-- A query is sent again only by its timer's callback. -/
theorem CmdEffect.expired_of_query {b : CmdAction κ} {q : ℕ} {bytes : List UInt8}
    (he : CmdEffect c b out c') (hb : ∀ qtype payload cb fd, b ≠ .asyncQuery qtype payload cb fd)
    (hmem : .query q bytes ∈ out) : .expired q ∈ out := by
  cases he with
  | @issued qtype payload cb fd => exact (hb qtype payload cb fd rfl).elim
  | ignored | acked =>
    obtain ⟨ack, ho⟩ := mem_replyAckOf hmem
    cases ho
  | replied =>
    rcases List.mem_append.mp hmem with hmem | hmem
    · obtain ⟨ack, ho⟩ := mem_replyAckOf hmem
      cases ho
    · obtain ⟨cb, -, ho⟩ := mem_invoke.mp hmem
      cases ho
  | failed =>
    rcases List.mem_cons.mp hmem with ho | hmem
    · cases ho
    · obtain ⟨cb, -, ho⟩ := mem_invoke.mp hmem
      cases ho
  | @retried evt seqid fd st =>
    obtain ⟨rfl, -⟩ : q = st.query ∧ bytes = CmdClient.queryDatagram seqid st := by simpa using hmem
    exact List.mem_cons_self

theorem CmdLoopStep.expired_of_retries {query : ℕ} (hi : CmdLoopInv l)
    (hs : CmdLoopStep l a out l') (h : a.Retries query out) : .expired query ∈ out := by
  rcases hs.client_cases hi with ⟨-, rfl⟩ | ⟨-, rfl⟩ | ⟨b, hruns, hstep⟩
  · rcases h with ⟨-, bytes, hmem⟩ | ⟨cb, data, hmem⟩ | hmem <;> cases hmem
  · rcases h with ⟨-, bytes, hmem⟩ | ⟨cb, data, hmem⟩ | hmem <;> cases hmem
  · rcases h with ⟨ha, bytes, hmem⟩ | ⟨cb, data, hmem⟩ | hmem
    · refine hstep.effect.expired_of_query ?_ hmem
      rintro qtype payload cb fd rfl
      cases hruns
      exact ha _ _ _ _ rfl
    · rcases hstep.effect.callback hmem with ⟨hok, -⟩ | ⟨-, hexp, -⟩
      · cases hok
      · exact hexp
    · exact hmem

/-- A query's timer expires in a step only as the event dispatched there. -/
theorem CmdLoopStep.expired_cases {query : ℕ} (hi : CmdLoopInv l) (hs : CmdLoopStep l a out l')
    (hmem : .expired query ∈ out) : ∃ seqid st evt rest, l.client.findState seqid = some st ∧
      st.query = query ∧ st.timeoutEvt = some evt ∧ l.batch = evt.fd :: rest ∧
      l.client.em.events.lookup evt.fd = some evt := by
  rcases hs.client_cases hi with ⟨-, rfl⟩ | ⟨-, rfl⟩ | ⟨b, hruns, hstep⟩
  · cases hmem
  · cases hmem
  · obtain ⟨evt, fd, seqid, st, rfl, hlook, hcb, hf, hquery, -⟩ := hstep.effect.expired hmem
    obtain ⟨-, st', hf', ht⟩ := hi.client.timer evt.fd evt seqid hlook hcb
    cases hf.symm.trans hf'
    cases hruns with
    | dispatch hbatch => exact ⟨seqid, st, evt, _, hf, hquery, ht, hbatch, hlook⟩

/-- No new timer gets a descriptor that is still to be dispatched. -/
def CmdNoPendingReuse (stopFd : Fd) (tr : CmdLoopTrace κ) : Prop :=
  ∀ pre a out l l' fd, pre ++ [(a, out)] <+: tr → CmdLoopRun stopFd pre l →
    CmdLoopStep l a out l' → a.newTimer = some fd → fd ∉ l.pendingAfter a

/-- A query is retried, or given up, only when the latest poll reported its own timer. -/
def RetriedAfterExpiry (stopFd : Fd) (tr : CmdLoopTrace κ) : Prop :=
  ∀ pre a out l l' query, pre ++ [(a, out)] <+: tr → CmdLoopRun stopFd pre l →
    CmdLoopStep l a out l' → a.Retries query out →
    ∃ seqid st evt, l.client.findState seqid = some st ∧ st.query = query ∧
      st.timeoutEvt = some evt ∧ (cmdBatch κ stopFd).Reported pre evt.fd evt

theorem retriedAfterExpiry_of_noPendingReuse (hno : CmdNoPendingReuse stopFd tr) :
    RetriedAfterExpiry stopFd tr := by
  intro pre a out l l' query hpre hl hs hretries
  have hi := cmdLoopInv_run hl
  obtain ⟨seqid, st, evt, rest, hf, hquery, ht, hbatch, hlook⟩ :=
    hs.expired_cases hi (hs.expired_of_retries hi hretries)
  refine ⟨seqid, st, evt, hf, hquery, ht, ?_⟩
  have hin : evt.fd ∈ l.batch := by
    rw [hbatch]
    exact List.mem_cons_self
  refine BatchLoop.reported_of_no_reuse (B := cmdBatch κ stopFd) hl ?_ evt.fd hin evt hlook
  rintro pre' a' out' u v hp hu hstep hpoll ⟨fd, hfd, evt', hnew, hold⟩
  rcases CmdLoopStep.lookup_cases (cmdLoopInv_run hu) hstep hnew with h | hcreated
  · exact hold h
  · refine hno pre' a' out' u v fd ?_ hu hstep hcreated ?_
    · exact hp.trans ((List.prefix_append _ _).trans hpre)
    · rw [← hstep.batch_eq hpoll]
      exact hfd

/-- A step of the client alone is one of its loop. -/
theorem CmdStep.loop {b : CmdAction κ} (hs : CmdStep l.client b out c') (hruns : l.Runs a b) :
    CmdLoopStep l a out ⟨c', l.pendingAfter a⟩ := by
  cases hruns with
  | asyncQuery =>
    cases hs with
    | asyncQuery hfd hquery => exact ⟨hfd, bind_eq_ok.mpr ⟨_, hquery, rfl⟩⟩
  | packetReceived =>
    cases hs with
    | packetReceived hrec => exact ⟨trivial, bind_eq_ok.mpr ⟨_, hrec, rfl⟩⟩
  | @dispatch evt rest fd hbatch =>
    cases hs with
    | @timer _ _ seqid _ _ hlook hcb hfd hfire =>
      refine ⟨⟨hfd, by simp [hbatch]⟩, ?_⟩
      have hdisp : CmdLoop.dispatch l.client evt.fd fd = .ok (c', out) := by
        simp only [CmdLoop.dispatch, hlook, hcb]
        exact hfire
      simp only [CmdLoop.handle, hbatch, CmdLoop.pendingAfter, List.tail_cons]
      exact bind_eq_ok.mpr ⟨_, hdisp, rfl⟩

theorem CmdLoopRun.unique {l₂ : CmdLoop κ} (h : CmdLoopRun stopFd tr l)
    (h' : CmdLoopRun stopFd tr l₂) : l = l₂ := by
  refine Steps.deterministic h h' ?_
  rintro s act out t t' ⟨-, hstep⟩ ⟨-, hstep'⟩
  cases hstep.symm.trans hstep'
  rfl

/-- A query whose timer is polled and dispatched is sent again, with a timer on descriptor 5. -/
theorem firstRetry_run (cb : Option κ) : ∃ l, CmdLoopRun 3
    [(.asyncQuery .kUvcUacCommand [] cb 4, [.query 0 (cmdDatagram 0 1 0 [])]), (.poll [4], []),
      (.dispatch 5, [.expired 0, .query 0 (cmdDatagram 0 1 0 [])])] l := by
  have hfd : 5 ∉ (firstQuery cb).em.events := by
    apply AList.lookup_eq_none.mp
    rw [firstQuery, CmdClient.events_sentClient, AList.lookup_insert_ne (by decide)]
    rfl
  have hlook : (firstQuery cb).em.events.lookup 4 =
      some ⟨1, 4, 8, .user (.retryOperation 0)⟩ := AList.lookup_insert _
  have hretry : CmdStep (firstQuery cb) (.timer ⟨1, 4, 8, .user (.retryOperation 0)⟩ 5)
      [.expired 0, .query 0 (cmdDatagram 0 1 0 [])] _ :=
    (CmdEffect.retried hlook rfl hfd CmdClient.findState_sentClient_self
      (show 0 + 1 < 10 by decide) (Nat.zero_le _)).step (by simp)
  have hquery : CmdLoopStep (CmdLoop.create 3) (.asyncQuery .kUvcUacCommand [] cb 4)
      [.query 0 (cmdDatagram 0 1 0 [])] ⟨firstQuery cb, []⟩ := (firstQuery_step cb).loop .asyncQuery
  have hpoll : CmdLoopStep ⟨firstQuery cb, []⟩ (.poll [4]) [] ⟨firstQuery cb, [4]⟩ := ⟨rfl, rfl⟩
  exact ⟨_, .cons hquery (.cons hpoll
    (.single (hretry.loop (l := ⟨firstQuery cb, [4]⟩) (.dispatch rfl))))⟩

theorem firstRetry_noPendingReuse (cb : Option κ) : CmdNoPendingReuse 3
    [(.asyncQuery .kUvcUacCommand [] cb 4, [.query 0 (cmdDatagram 0 1 0 [])]), (.poll [4], []),
      (.dispatch 5, [.expired 0, .query 0 (cmdDatagram 0 1 0 [])])] := by
  intro pre a out l l' fd hpre hl _ hnew
  rcases pre with _ | ⟨x, _ | ⟨y, pre⟩⟩
  · -- the first timer comes when there is no batch
    simp only [List.nil_append, List.cons_prefix_cons, Prod.mk.injEq] at hpre
    obtain ⟨⟨rfl, -⟩, -⟩ := hpre
    rw [hl.nil_inv]
    exact List.not_mem_nil
  · simp only [List.cons_append, List.nil_append, List.cons_prefix_cons, Prod.mk.injEq] at hpre
    obtain ⟨-, ⟨rfl, -⟩, -⟩ := hpre
    cases hnew
  · cases pre with
    | nil =>
      -- the second one takes the place of the last entry of its batch
      simp only [List.cons_append, List.nil_append, List.cons_prefix_cons, Prod.mk.injEq] at hpre
      obtain ⟨-, rfl, ⟨rfl, -⟩, -⟩ := hpre
      replace hl : CmdLoopRun 3 ([x] ++ [_]) _ := hl
      obtain ⟨m, -, -, hhandle⟩ := hl.snoc_inv
      cases hhandle
      exact List.not_mem_nil
    | cons z pre =>
      have hlen := hpre.length_le
      simp only [List.length_append, List.length_cons, List.length_nil] at hlen
      omega

/-- Where no waiting number goes to a new event, callbacks run only for events whose own descriptor
was reported, and a query is retried only after its own timer expired. The condition is met by a run
exactly when at each of its points the rest of the batch could be handled like that. -/
theorem callbacks_only_when_ready (stopFd : Fd) (opened : List Fd) (tr : FdTrace κ)
    (ctr : CmdLoopTrace κ) :
    (NoPendingReuse stopFd opened tr → OnlyReadyCallbacks stopFd opened tr) ∧
    (NoPendingReuse stopFd opened tr ↔
      ∀ pre ds l, pre <+: tr → FdRun stopFd opened (pre ++ ds) l →
        (∀ x ∈ ds, x.1.dispatches = true) → OnlyReadyCallbacks stopFd opened (pre ++ ds)) ∧
    (CmdNoPendingReuse stopFd ctr → RetriedAfterExpiry stopFd ctr) :=
  ⟨onlyReady_of_noPendingReuse, noPendingReuse_iff, retriedAfterExpiry_of_noPendingReuse⟩

/-- One timer, polled and dispatched: its callback runs for the poll that reported it; and a query
whose timer is polled and dispatched, which sends it again. -/
theorem callbacks_only_when_ready_one_timer :
    (∃ (tr : FdTrace ℕ) (l : FdLoop ℕ), FdRun 4 [0, 1, 2, 3] tr l ∧
      .callback 7 ∈ tr.flatMap (·.2) ∧ OnlyReadyCallbacks 4 [0, 1, 2, 3] tr) ∧
    ∃ (tr : CmdLoopTrace ℕ) (l : CmdLoop ℕ), CmdLoopRun 3 tr l ∧ tr =
        [(.asyncQuery .kUvcUacCommand [] (some 7) 4, [.query 0 (cmdDatagram 0 1 0 [])]),
          (.poll [4], []), (.dispatch 5, [.expired 0, .query 0 (cmdDatagram 0 1 0 [])])] ∧
      RetriedAfterExpiry 3 tr := by
  constructor
  · have hrun : FdRun 4 [0, 1, 2, 3] [(.machine (.newEvent 5 8 7), []), (.machine .startEM, []),
        (.machine (.poll [5]), []), (.machine (.dispatch 5 true), [.callback 7])] _ :=
      .cons (.machine (Or.inl ⟨rfl, by decide, by decide, by decide⟩) (.newEvent (by decide)))
        (.cons (.machine trivial (.startEM rfl))
          (.cons (.machine ⟨by decide, by decide⟩ (.poll rfl rfl (by decide)))
            (.cons (.machine trivial (.dispatch rfl)) .refl)))
    refine ⟨_, _, hrun, by decide,
      (callbacks_only_when_ready 4 [0, 1, 2, 3] _ ([] : CmdLoopTrace ℕ)).1 ?_⟩
    -- The only new event comes first, when there is no batch.
    rintro pre fd readSize k out l l' ⟨post, hpre⟩ hl -
    cases pre with
    | nil =>
      rw [hl.nil_inv]
      exact List.not_mem_nil
    | cons x pre =>
      have hmem : (.machine (.newEvent fd readSize k), out) ∈
          pre ++ [(.machine (.newEvent fd readSize k), out)] ++ post := by simp
      rw [List.cons_append, List.cons_append] at hpre
      obtain ⟨-, htail⟩ := List.cons.inj hpre
      rw [htail] at hmem
      simp at hmem
  · obtain ⟨l, hrun⟩ := firstRetry_run (some 7)
    exact ⟨_, l, hrun, rfl, (callbacks_only_when_ready 3 [] [] _).2.2
      (firstRetry_noPendingReuse (some 7))⟩

/-- The client once its first query is answered: the number of its timer is free again. -/
def firstAnswered (cb : κ) : CmdClient κ :=
  (firstAcked (some cb)).complete 0 ⟨1, 4, 8, .user (.retryOperation 0)⟩

/-- The client after a second query, whose timer gets that number. -/
def secondQuery (cb : κ) : CmdClient κ :=
  { firstAnswered cb with seqid := 2, issued := 2 }.sentClient 1
    ((firstAnswered cb).freshState .kUvcUacCommand [] none) 4

theorem secondQuery_step (cb : κ) : CmdStep (firstAnswered cb)
    (.asyncQuery .kUvcUacCommand [] none 4) [.query 1 (cmdDatagram 0 1 1 [])] (secondQuery cb) := by
  have hfd : 4 ∉ (firstAnswered cb).em.events := AList.lookup_eq_none.mp (AList.lookup_erase _ _)
  exact (CmdEffect.issued hfd rfl (Nat.zero_le _)).step (by simp)

theorem lookup_secondQuery (cb : κ) : (secondQuery cb).em.events.lookup 4 =
    some ⟨2, 4, 8, .user (.retryOperation 1)⟩ := AList.lookup_insert _

/-- The loop up to the poll, before the first query's timer is reported. -/
theorem ackedRun (cb : κ) : CmdLoopRun 3 [(.asyncQuery .kUvcUacCommand [] (some cb) 4,
      [.query 0 (cmdDatagram 0 1 0 [])]), (.packetReceived (cmdDatagram 1 1 0 []), [])]
      ⟨firstAcked (some cb), []⟩ := by
  have hquery : CmdLoopStep (CmdLoop.create 3) (.asyncQuery .kUvcUacCommand [] (some cb) 4)
      [.query 0 (cmdDatagram 0 1 0 [])] ⟨firstQuery (some cb), []⟩ :=
    (firstQuery_step (some cb)).loop .asyncQuery
  have hack : CmdLoopStep ⟨firstQuery (some cb), []⟩ (.packetReceived (cmdDatagram 1 1 0 [])) []
      ⟨firstAcked (some cb), []⟩ := (firstAcked_step (some cb)).loop .packetReceived
  exact .cons hquery (.cons hack .refl)

/-- The loop up to the second query, with the first one's timer still in the batch. -/
theorem staleRun (cb : κ) : CmdLoopRun 3 [(.asyncQuery .kUvcUacCommand [] (some cb) 4,
      [.query 0 (cmdDatagram 0 1 0 [])]), (.packetReceived (cmdDatagram 1 1 0 []), []),
      (.poll [4], []), (.packetReceived (cmdDatagram 2 1 0 []),
      [.replyAck (cmdDatagram 3 1 0 []), .replyCallback 0 cb true []]),
      (.asyncQuery .kUvcUacCommand [] none 4, [.query 1 (cmdDatagram 0 1 1 [])])]
      ⟨secondQuery cb, [4]⟩ := by
  have hpoll : CmdLoopStep ⟨firstAcked (some cb), []⟩ (.poll [4]) [] ⟨firstAcked (some cb), [4]⟩ :=
    ⟨rfl, rfl⟩
  have hreply : CmdLoopStep ⟨firstAcked (some cb), [4]⟩ (.packetReceived (cmdDatagram 2 1 0 []))
      [.replyAck (cmdDatagram 3 1 0 []), .replyCallback 0 cb true []] ⟨firstAnswered cb, [4]⟩ :=
    (firstReply_step cb (Nat.zero_le _)).loop .packetReceived
  have hsecond : CmdLoopStep ⟨firstAnswered cb, [4]⟩ (.asyncQuery .kUvcUacCommand [] none 4)
      [.query 1 (cmdDatagram 0 1 1 [])] ⟨secondQuery cb, [4]⟩ :=
    (secondQuery_step cb).loop .asyncQuery
  exact (ackedRun cb).trans (.cons hpoll (.cons hreply (.cons hsecond .refl)))

/-- The stale entry makes the client retry the second query at once. -/
theorem secondQuery_retried (cb : κ) : ∃ c', CmdLoopStep ⟨secondQuery cb, [4]⟩ (.dispatch 5)
    [.expired 1, .query 1 (cmdDatagram 0 1 1 [])] c' := by
  have hfd : 5 ∉ (secondQuery cb).em.events := by
    apply AList.lookup_eq_none.mp
    rw [secondQuery, CmdClient.events_sentClient, AList.lookup_insert_ne (by decide)]
    rfl
  have hstep : CmdStep (secondQuery cb) (.timer ⟨2, 4, 8, .user (.retryOperation 1)⟩ 5)
      [.expired 1, .query 1 (cmdDatagram 0 1 1 [])] _ :=
    (CmdEffect.retried (lookup_secondQuery cb) rfl hfd CmdClient.findState_sentClient_self
      (show 0 + 1 < 10 by decide) (Nat.zero_le _)).step (by simp)
  exact ⟨_, hstep.loop (l := ⟨secondQuery cb, [4]⟩) (.dispatch rfl)⟩

/-- The second query's timer was not there at the poll. -/
theorem secondQuery_not_reported (cb : κ) : ¬ (cmdBatch κ 3).Reported
    [(.asyncQuery .kUvcUacCommand [] (some cb) 4, [.query 0 (cmdDatagram 0 1 0 [])]),
      (.packetReceived (cmdDatagram 1 1 0 []), []), (.poll [4], []),
      (.packetReceived (cmdDatagram 2 1 0 []),
        [.replyAck (cmdDatagram 3 1 0 []), .replyCallback 0 cb true []]),
      (.asyncQuery .kUvcUacCommand [] none 4, [.query 1 (cmdDatagram 0 1 1 [])])]
    4 ⟨2, 4, 8, .user (.retryOperation 1)⟩ := by
  rintro ⟨pre, a, o, mid, numbers, s, heq, hpoll, -, hs, -, hlook⟩
  rcases pre with _ | ⟨x, _ | ⟨y, _ | ⟨z, pre⟩⟩⟩
  · cases heq
    cases hpoll
  · cases heq
    cases hpoll
  · -- the only poll, when the number was still the first query's
    cases heq
    rw [CmdLoopRun.unique hs (ackedRun cb)] at hlook
    have hfirst : (firstAcked (some cb)).em.events.lookup 4 =
        some ⟨1, 4, 8, .user (.retryOperation 0)⟩ := AList.lookup_insert _
    cases hfirst.symm.trans hlook
  · have hmem : (a, o) ∈ pre ++ (a, o) :: mid := by simp
    simp only [List.cons_append, List.cons.injEq] at heq
    rw [← heq.2.2.2] at hmem
    simp only [List.mem_cons, Prod.mk.injEq, List.not_mem_nil, or_false] at hmem
    rcases hmem with ⟨rfl, -⟩ | ⟨rfl, -⟩
    · cases hpoll
    · cases hpoll

/-- A timer is cancelled while its entry waits, and the one created next has its number. -/
theorem stale_entry_runs_callback :
    (∃ (tr : FdTrace ℕ) (l : FdLoop ℕ), FdRun 4 [0, 1, 2, 3] tr l ∧ tr =
        [(.machine (.newEvent 5 8 7), []), (.machine .startEM, []), (.machine (.poll [5]), []),
          (.machine (.cancelEvent ⟨1, 5, 8, .user 7⟩), []), (.machine (.newEvent 5 8 9), []),
          (.machine (.dispatch 5 true), [.callback 9])] ∧
      ¬ OnlyReadyCallbacks 4 [0, 1, 2, 3] tr) := by
  obtain ⟨l, hcancel, hfree, hfd, hptr, hpc⟩ : ∃ l : FdLoop ℕ, FdRun 4 [0, 1, 2, 3]
      [(.machine (.newEvent 5 8 7), []), (.machine .startEM, []), (.machine (.poll [5]), []),
        (.machine (.cancelEvent ⟨1, 5, 8, .user 7⟩), [])] l ∧ l.LowestFree 5 ∧
      5 ∉ l.loop.em.events ∧ l.loop.em.nextPtr = 2 ∧ l.loop.pc = .batch [5] := by
    refine ⟨_, .cons (.machine (Or.inl ⟨rfl, by decide, by decide, by decide⟩)
      (.newEvent (by decide))) (.cons (.machine trivial (.startEM rfl))
        (.cons (.machine ⟨by decide, by decide⟩ (.poll rfl rfl (by decide)))
          (.cons (.machine trivial (.cancelEvent (by decide) rfl)) .refl))), ?_, ?_, rfl, rfl⟩
    · exact ⟨by decide, by decide, by decide⟩
    · decide
  have hnew : FdStep l (.machine (.newEvent 5 8 9)) [] _ :=
    .machine (Or.inl ⟨rfl, hfree⟩) (.newEvent hfd)
  have hlook : (l.loop.em.newEvent 5 8 (.user 9)).1.events.lookup 5 =
      some ⟨l.loop.em.nextPtr, 5, 8, .user 9⟩ := AList.lookup_insert _
  obtain ⟨l', hdispatch⟩ : ∃ l', FdStep
      ⟨{ l.loop with em := (l.loop.em.newEvent 5 8 (.user 9)).1 }, l.opened⟩
      (.machine (.dispatch 5 true)) [.callback 9] l' := by
    have hout : (EventLoop.dispatch { l.loop with em := (l.loop.em.newEvent 5 8 (.user 9)).1 }
        5 [] true).2 = [.callback 9] := by
      simp [EventLoop.dispatch, hlook]
    rw [← hout]
    exact ⟨_, .machine trivial (.dispatch hpc)⟩
  refine ⟨_, _, (hcancel.snoc hnew).snoc hdispatch, rfl, ?_⟩
  intro hready
  have hreported := (hready _ 5 true _ _ _ _ (List.prefix_refl _) (hcancel.snoc hnew) hdispatch
    hlook).2
  exact not_reported_new hcancel (by simp [FdAction.polled]) (le_refl _) hreported

/-- A timer expires and is cancelled before its entry is dispatched; the timer created meanwhile
has its number. -/
theorem stale_entry_runs_new_timer :
    (∃ (tr : FdTrace ℕ) (l : FdLoop ℕ), FdRun 4 [0, 1, 2, 3] tr l ∧ tr =
        [(.machine (.newEvent 5 8 7), []), (.machine .startEM, []), (.machine (.poll [5]), []),
          (.machine (.cancelEvent ⟨1, 5, 8, .user 7⟩), []), (.machine (.newEvent 5 8 9), []),
          (.machine (.dispatch 5 true), [.callback 9])] ∧
      ¬ OnlyReadyCallbacks 4 [0, 1, 2, 3] tr) ∧
    ∃ (tr : CmdLoopTrace ℕ) (l : CmdLoop ℕ), CmdLoopRun 3 tr l ∧ tr.map Prod.fst =
        [.asyncQuery .kUvcUacCommand [] (some 7) 4, .packetReceived (cmdDatagram 1 1 0 []),
          .poll [4], .packetReceived (cmdDatagram 2 1 0 []),
          .asyncQuery .kUvcUacCommand [] none 4, .dispatch 5] ∧
      ¬ RetriedAfterExpiry 3 tr := by
  refine ⟨stale_entry_runs_callback, ?_⟩
  obtain ⟨l, hretry⟩ := secondQuery_retried 7
  have hrun := staleRun 7
  refine ⟨_, l, hrun.snoc hretry, rfl, ?_⟩
  intro hexpired
  obtain ⟨seqid, st, evt, hf, hquery, ht, hreported⟩ :=
    hexpired _ _ _ _ l 1 (List.prefix_refl _) hrun hretry (Or.inr (Or.inr (by simp)))
  have hseqid := ((cmdLoopInv_run hrun).client.entry seqid st hf).seqid_eq
  rw [hquery] at hseqid
  subst hseqid
  cases hf.symm.trans CmdClient.findState_sentClient_self
  cases ht
  exact secondQuery_not_reported 7 hreported

end Pc2Drc
