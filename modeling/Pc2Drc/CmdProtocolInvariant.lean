import Pc2Drc.CmdProtocolSteps

/-! The invariant of the command client: queries, sequence ids and retry timers. -/
namespace Pc2Drc
open Lib

variable {κ : Type} {c c' : CmdClient κ} {a : CmdAction κ} {out : List (CmdOutput κ)}
  {seqid seqid' : UInt16} {st : CmdState κ} {fd : Fd}

theorem toUInt16_inj {m n : ℕ} : m.toUInt16 = n.toUInt16 ↔ m % 65536 = n % 65536 := by
  constructor
  · intro h
    simpa using congrArg UInt16.toNat h
  · intro h
    apply UInt16.toNat_inj.mp
    simpa using h

theorem toUInt16_succ (n : ℕ) : n.toUInt16 + 1 = (n + 1).toUInt16 := by
  apply UInt16.toNat_inj.mp
  simp

/-- What holds of a query in flight: its id is its number modulo 65536, no later query has taken
the id, and its own retry timer is registered. -/
structure EntryInv (c : CmdClient κ) (seqid : UInt16) (st : CmdState κ) : Prop where
  seqid_eq : seqid = st.query.toUInt16
  query_lt : st.query < c.issued
  issued_le : c.issued ≤ st.query + 65536
  state_eq : st.state = .kQueryAck ∨ st.state = .kReply
  retries_le : st.retriesCount ≤ 9
  payload_le : st.queryPayload.length ≤ kMaxCmdPayloadSize
  timer : ∃ evt, st.timeoutEvt = some evt ∧ c.em.events.lookup evt.fd = some evt ∧
    evt.callback = .user (.retryOperation seqid)

/-- Every registered retry timer belongs to the query in flight it would retry. -/
structure CmdInv (c : CmdClient κ) : Prop where
  seqid_eq : c.seqid = c.issued.toUInt16
  entry : ∀ seqid st, c.findState seqid = some st → EntryInv c seqid st
  timer : ∀ fd evt seqid, c.em.events.lookup fd = some evt →
    evt.callback = .user (.retryOperation seqid) →
    evt.fd = fd ∧ ∃ st, c.findState seqid = some st ∧ st.timeoutEvt = some evt

namespace CmdClient

@[simp]
theorem findState_storeState_self : (c.storeState seqid st).findState seqid = some st :=
  AList.lookup_insert _

theorem findState_storeState_ne (h : seqid' ≠ seqid) :
    (c.storeState seqid st).findState seqid' = c.findState seqid' :=
  AList.lookup_insert_ne h

end CmdClient

/-- The client is as new: nothing is in flight and no timer runs. -/
theorem cmdInv_create (stopFd : Fd) : CmdInv (CmdClient.create stopFd : CmdClient κ) where
  seqid_eq := rfl
  entry := by
    intro seqid st h
    simp [CmdClient.create, CmdClient.findState] at h
  timer := by
    intro fd evt seqid h hcb
    change (EventMachine.create stopFd).events.lookup fd = some evt at h
    rw [EventMachine.lookup_create] at h
    split at h <;> simp at h
    simp [← h] at hcb

namespace CmdClient

@[simp]
theorem findState_sentClient_self {st : CmdState κ} :
    (c.sentClient seqid st fd).findState seqid = some (c.sentState seqid st fd) :=
  findState_storeState_self

theorem findState_sentClient_ne (h : seqid' ≠ seqid) :
    (c.sentClient seqid st fd).findState seqid' = c.findState seqid' :=
  findState_storeState_ne h

@[simp]
theorem events_sentClient : (c.sentClient seqid st fd).em.events =
    c.em.events.insert fd (c.retryTimer seqid fd) := rfl

@[simp]
theorem issued_sentClient : (c.sentClient seqid st fd).issued = c.issued := rfl

@[simp]
theorem seqid_sentClient : (c.sentClient seqid st fd).seqid = c.seqid := rfl

theorem findState_complete_ne {evt : Event CmdEvent} (h : seqid' ≠ seqid) :
    (c.complete seqid evt).findState seqid' = c.findState seqid' :=
  AList.lookup_erase_ne h

@[simp]
theorem findState_complete_self {evt : Event CmdEvent} :
    (c.complete seqid evt).findState seqid = none :=
  AList.lookup_erase _ _

end CmdClient

/-- An entry keeps its invariant when its own timer stays and no later query takes its id. -/
theorem EntryInv.frame (h : EntryInv c seqid st) (hi : c.issued ≤ c'.issued)
    (hle : c'.issued ≤ st.query + 65536)
    (he : ∀ evt, st.timeoutEvt = some evt → c'.em.events.lookup evt.fd = some evt) :
    EntryInv c' seqid st where
  seqid_eq := h.seqid_eq
  query_lt := Nat.lt_of_lt_of_le h.query_lt hi
  issued_le := hle
  state_eq := h.state_eq
  retries_le := h.retries_le
  payload_le := h.payload_le
  timer := by
    obtain ⟨evt, hevt, _, hcb⟩ := h.timer
    exact ⟨evt, hevt, he evt hevt, hcb⟩

theorem EntryInv.lookup {evt : Event CmdEvent} (h : EntryInv c seqid st)
    (ht : st.timeoutEvt = some evt) :
    c.em.events.lookup evt.fd = some evt ∧ evt.callback = .user (.retryOperation seqid) := by
  obtain ⟨evt', hevt, hlook, hcb⟩ := h.timer
  cases ht.symm.trans hevt
  exact ⟨hlook, hcb⟩

/-- Two queries in flight never share a timer, not even its descriptor. -/
theorem CmdInv.timer_fd_ne (hi : CmdInv c) {st' : CmdState κ} {evt evt' : Event CmdEvent}
    (hf : c.findState seqid = some st) (hf' : c.findState seqid' = some st')
    (ht : st.timeoutEvt = some evt) (ht' : st'.timeoutEvt = some evt') (hne : seqid' ≠ seqid) :
    evt'.fd ≠ evt.fd := by
  intro hfd
  obtain ⟨hl, hcb⟩ := (hi.entry _ _ hf).lookup ht
  obtain ⟨hl', hcb'⟩ := (hi.entry _ _ hf').lookup ht'
  rw [hfd, hl] at hl'
  cases hl'
  rw [hcb] at hcb'
  cases hcb'
  exact hne rfl

/-- A timer under another descriptor than a query's belongs to another query. -/
theorem CmdInv.timer_other (hi : CmdInv c) {evt e : Event CmdEvent} {fd' : Fd}
    (hf : c.findState seqid = some st) (ht : st.timeoutEvt = some evt) (hfd : fd' ≠ evt.fd)
    (hl : c.em.events.lookup fd' = some e) (hcb : e.callback = .user (.retryOperation seqid')) :
    e.fd = fd' ∧ seqid' ≠ seqid ∧
      ∃ st', c.findState seqid' = some st' ∧ st'.timeoutEvt = some e := by
  obtain ⟨rfl, st', hs, ht'⟩ := hi.timer fd' e seqid' hl hcb
  refine ⟨rfl, ?_, st', hs, ht'⟩
  rintro rfl
  cases hf.symm.trans hs
  cases ht.symm.trans ht'
  exact hfd rfl

theorem CmdInv.complete {evt : Event CmdEvent} (hi : CmdInv c)
    (hf : c.findState seqid = some st) (ht : st.timeoutEvt = some evt) :
    CmdInv (c.complete seqid evt) where
  seqid_eq := hi.seqid_eq
  entry := by
    intro s st' hs
    by_cases hne : s = seqid
    · subst hne
      simp at hs
    · rw [CmdClient.findState_complete_ne hne] at hs
      have he := hi.entry s st' hs
      refine he.frame le_rfl he.issued_le ?_
      intro evt' ht'
      exact (AList.lookup_erase_ne (hi.timer_fd_ne hf hs ht ht' hne)).trans (he.lookup ht').1
  timer := by
    intro fd e s hl hcb
    have hfd : fd ≠ evt.fd := by
      rintro rfl
      simp [CmdClient.complete, CmdClient.removeState] at hl
    change (c.em.events.erase evt.fd).lookup fd = some e at hl
    rw [AList.lookup_erase_ne hfd] at hl
    obtain ⟨he, hne, st', hs, ht'⟩ := hi.timer_other hf ht hfd hl hcb
    exact ⟨he, st', by rwa [CmdClient.findState_complete_ne hne], ht'⟩

theorem CmdInv.acked (hi : CmdInv c) (hf : c.findState seqid = some st) :
    CmdInv (c.storeState seqid { st with state := .kReply }) where
  seqid_eq := hi.seqid_eq
  entry := by
    intro s st' hs
    by_cases hne : s = seqid
    · subst hne
      have he := hi.entry s st hf
      cases (CmdClient.findState_storeState_self).symm.trans hs
      exact { seqid_eq := he.seqid_eq, query_lt := he.query_lt, issued_le := he.issued_le,
              state_eq := Or.inr rfl, retries_le := he.retries_le, payload_le := he.payload_le,
              timer := he.timer }
    · rw [CmdClient.findState_storeState_ne hne] at hs
      have he := hi.entry s st' hs
      exact he.frame le_rfl he.issued_le (fun evt ht => (he.lookup ht).1)
  timer := by
    intro fd evt s hl hcb
    obtain ⟨rfl, st', hs, ht⟩ := hi.timer fd evt s hl hcb
    refine ⟨rfl, ?_⟩
    by_cases hne : s = seqid
    · subst hne
      cases hf.symm.trans hs
      exact ⟨_, CmdClient.findState_storeState_self, ht⟩
    · exact ⟨st', by rwa [CmdClient.findState_storeState_ne hne], ht⟩

/-- A registered descriptor is never the one a new timer gets. -/
theorem EntryInv.fd_ne {evt : Event CmdEvent} (h : EntryInv c seqid st)
    (ht : st.timeoutEvt = some evt) (hfd : fd ∉ c.em.events) : evt.fd ≠ fd := by
  rintro rfl
  rw [← AList.lookup_eq_none, (h.lookup ht).1] at hfd
  cases hfd

/-- The ids in flight are those of the last 65536 queries, so an id that is free is not far
behind. -/
theorem CmdInv.issued_lt (hi : CmdInv c) (hnone : c.findState c.seqid = none)
    (hf : c.findState seqid = some st) : c.issued < st.query + 65536 := by
  have he := hi.entry seqid st hf
  by_contra hge
  have heq : c.issued = st.query + 65536 := by
    have := he.issued_le
    omega
  have hs : seqid = c.seqid := by
    rw [he.seqid_eq, hi.seqid_eq, heq, toUInt16_inj]
    omega
  subst hs
  rw [hnone] at hf
  cases hf

theorem CmdInv.issued {qtype : CmdQueryType} {payload : List UInt8} {cb : Option κ}
    (hi : CmdInv c) (hfd : fd ∉ c.em.events) (hnone : c.findState c.seqid = none)
    (hlen : payload.length ≤ kMaxCmdPayloadSize) :
    CmdInv ({ c with seqid := c.seqid + 1, issued := c.issued + 1 }.sentClient c.seqid
      (c.freshState qtype payload cb) fd) where
  seqid_eq := by
    rw [CmdClient.seqid_sentClient, CmdClient.issued_sentClient, hi.seqid_eq, toUInt16_succ]
  entry := by
    intro s st hs
    by_cases hne : s = c.seqid
    · subst hne
      cases (CmdClient.findState_sentClient_self).symm.trans hs
      exact { seqid_eq := hi.seqid_eq, query_lt := Nat.lt_succ_self _,
              issued_le := by simp [CmdClient.sentState, CmdClient.freshState],
              state_eq := Or.inl rfl, retries_le := Nat.zero_le _, payload_le := hlen,
              timer := ⟨_, rfl, AList.lookup_insert _, rfl⟩ }
    · rw [CmdClient.findState_sentClient_ne hne] at hs
      have he := hi.entry s st hs
      refine he.frame (Nat.le_succ _) (hi.issued_lt hnone hs) ?_
      intro evt ht
      exact (AList.lookup_insert_ne (he.fd_ne ht hfd)).trans (he.lookup ht).1
  timer := by
    intro fd' evt s hl hcb
    by_cases hnew : fd' = fd
    · subst hnew
      cases (AList.lookup_insert _).symm.trans hl
      cases hcb
      exact ⟨rfl, _, CmdClient.findState_sentClient_self, rfl⟩
    · rw [CmdClient.events_sentClient, AList.lookup_insert_ne hnew] at hl
      obtain ⟨rfl, st, hs, ht⟩ := hi.timer fd' evt s hl hcb
      have hne : s ≠ c.seqid := by
        rintro rfl
        cases hnone.symm.trans hs
      exact ⟨rfl, st, by rwa [CmdClient.findState_sentClient_ne hne], ht⟩

theorem CmdInv.retried {evt : Event CmdEvent} (hi : CmdInv c) (hfd : fd ∉ c.em.events)
    (hf : c.findState seqid = some st) (ht : st.timeoutEvt = some evt)
    (hmax : st.retriesCount + 1 < kMaxRetries) : CmdInv (c.retransmit seqid st evt fd) where
  seqid_eq := hi.seqid_eq
  entry := by
    intro s st' hs
    have hev := (hi.entry _ _ hf).fd_ne ht hfd
    by_cases hne : s = seqid
    · subst hne
      have he := hi.entry s st hf
      cases (CmdClient.findState_sentClient_self).symm.trans hs
      exact { seqid_eq := he.seqid_eq, query_lt := he.query_lt, issued_le := he.issued_le,
              state_eq := Or.inl rfl, retries_le := Nat.le_of_lt_succ hmax,
              payload_le := he.payload_le,
              timer :=
                ⟨_, rfl, (AList.lookup_erase_ne hev.symm).trans (AList.lookup_insert _), rfl⟩ }
    · have hs' : c.findState s = some st' := (CmdClient.findState_sentClient_ne hne).symm.trans hs
      have he := hi.entry s st' hs'
      refine he.frame le_rfl he.issued_le ?_
      intro evt' ht'
      rw [← (he.lookup ht').1]
      exact (AList.lookup_erase_ne (hi.timer_fd_ne hf hs' ht ht' hne)).trans
        (AList.lookup_insert_ne (he.fd_ne ht' hfd))
  timer := by
    intro fd' e s hl hcb
    have hold : fd' ≠ evt.fd := by
      rintro rfl
      exact absurd hl (by simp [CmdClient.retransmit])
    replace hl := (AList.lookup_erase_ne hold).symm.trans hl
    by_cases hnew : fd' = fd
    · subst hnew
      cases (AList.lookup_insert _).symm.trans hl
      cases hcb
      exact ⟨rfl, _, CmdClient.findState_sentClient_self, rfl⟩
    · replace hl := (AList.lookup_insert_ne hnew).symm.trans hl
      obtain ⟨he, hne, st', hs, ht'⟩ := hi.timer_other hf ht hold hl hcb
      exact ⟨he, st', (CmdClient.findState_sentClient_ne hne).trans hs, ht'⟩

/-- The query behind a registered timer. -/
theorem CmdInv.fired {evt : Event CmdEvent} (hi : CmdInv c)
    (hl : c.em.events.lookup evt.fd = some evt)
    (hcb : evt.callback = .user (.retryOperation seqid)) (hf : c.findState seqid = some st) :
    st.timeoutEvt = some evt := by
  obtain ⟨_, st', hs, ht⟩ := hi.timer _ evt seqid hl hcb
  cases hf.symm.trans hs
  exact ht

theorem cmdInv_step (hi : CmdInv c) (hs : CmdStep c a out c') : CmdInv c' := by
  cases hs.effect with
  | issued hfd hnone hlen => exact hi.issued hfd hnone hlen
  | ignored _ _ => exact hi
  | acked _ hf _ _ => exact hi.acked hf
  | replied _ hf _ _ ht _ _ _ => exact hi.complete hf ht
  | failed hl hcb _ hf _ => exact hi.complete hf (hi.fired hl hcb hf)
  | retried hl hcb hfd hf hmax _ => exact hi.retried hfd hf (hi.fired hl hcb hf) hmax

theorem cmdInv_run {stopFd : Fd} {tr : CmdTrace κ} (h : CmdRun stopFd tr c) : CmdInv c :=
  Steps.preserves h (cmdInv_create stopFd) (fun _ _ _ _ hi hs => cmdInv_step hi hs)

end Pc2Drc
