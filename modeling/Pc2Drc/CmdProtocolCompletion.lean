import Mathlib.Data.Fintype.EquivFin
import Pc2Drc.CmdProtocolHistory

/-! Every query completes at most once, and how it does; what a received reply leads to. -/
namespace Pc2Drc
open Lib

variable {κ : Type} {c c' : CmdClient κ} {a : CmdAction κ} {out : List (CmdOutput κ)}
  {seqid : UInt16} {st : CmdState κ} {fd stopFd : Fd} {q : ℕ} {tr pre post : CmdTrace κ}
  {cb : κ} {ok : Bool} {msg rest data : List UInt8} {h : CmdHeader}

/-- The step receives a reply with the id of a query. -/
def IsReply (q : ℕ) (a : CmdAction κ) : Prop :=
  ∃ msg h rest, a = .packetReceived msg ∧ CmdHeader.read msg = some (h, rest) ∧
    h.type = .kReply ∧ h.seqid = q.toUInt16

/-- A datagram the protocol allows: it fits the buffer, has a whole header, and carries the
payload the header announces. -/
def WellFormed (msg : List UInt8) : Prop :=
  msg.length ≤ kCmdHeaderSize + kMaxCmdPayloadSize ∧
    ∃ h rest, CmdHeader.read msg = some (h, rest) ∧ h.payloadSize ≤ rest.length

/-- A well-formed datagram is received without a fault. -/
theorem CmdInv.receives (hi : CmdInv c) (hwf : WellFormed msg) :
    ∃ out c', CmdStep c (.packetReceived msg) out c' := by
  obtain ⟨hfit, h, rest, hr, hsize⟩ := hwf
  have hfit' : ∀ m : List UInt8, (.packetReceived msg : CmdAction κ) = .packetReceived m →
      m.length ≤ kCmdHeaderSize + kMaxCmdPayloadSize := by
    intro m hm
    cases hm
    exact hfit
  cases hf : c.findState h.seqid with
  | none => exact ⟨_, _, (CmdEffect.ignored hr (by simp [hf])).step hfit'⟩
  | some st =>
    have he := hi.entry _ _ hf
    obtain ⟨evt, hevt, hlook, -⟩ := he.timer
    by_cases heq : h.type = st.state
    · rcases he.state_eq with hst | hst
      · exact ⟨_, _, (CmdEffect.acked hr hf (heq.trans hst) hst).step hfit'⟩
      · exact ⟨_, _, (CmdEffect.replied hr hf (heq.trans hst) hst hevt hlook rfl
          (fun _ => ⟨hsize, rfl⟩)).step hfit'⟩
    · refine ⟨_, _, (CmdEffect.ignored hr ?_).step hfit'⟩
      intro st' hst' heq'
      cases hf.symm.trans hst'
      exact (heq heq').elim

/-- From every reachable state the client can take each of its steps: no assertion fails but the
one on the id of a new query, and no event is used after it was destroyed. -/
theorem CmdInv.enabled (hi : CmdInv c) (hfd : fd ∉ c.em.events) :
    (∀ qtype payload cb, c.findState c.seqid = none → payload.length ≤ kMaxCmdPayloadSize →
      ∃ out c', CmdStep c (.asyncQuery qtype payload cb fd) out c') ∧
    (∀ msg, WellFormed msg → ∃ out c', CmdStep c (.packetReceived msg) out c') ∧
    (∀ evt seqid, c.em.events.lookup evt.fd = some evt →
      evt.callback = .user (.retryOperation seqid) →
      ∃ out c', CmdStep c (.timer evt fd) out c') := by
  refine ⟨?_, ?_, ?_⟩
  · intro qtype payload cb hnone hlen
    exact ⟨_, _, (CmdEffect.issued hfd hnone hlen).step (by simp)⟩
  · exact fun msg hwf => hi.receives hwf
  · intro evt seqid hlook hcb
    obtain ⟨-, st, hf, -⟩ := hi.timer _ evt seqid hlook hcb
    by_cases hmax : kMaxRetries ≤ st.retriesCount + 1
    · exact ⟨_, _, (CmdEffect.failed hlook hcb hfd hf hmax).step (by simp)⟩
    · exact ⟨_, _, (CmdEffect.retried hlook hcb hfd hf (Nat.lt_of_not_le hmax)
        (hi.entry _ _ hf).payload_le).step (by simp)⟩

/-- Every reply is acknowledged, whatever the client makes of it. -/
theorem CmdStep.replyAck_mem (hs : CmdStep c (.packetReceived msg) out c')
    (hr : CmdHeader.read msg = some (h, rest)) (ht : h.type = .kReply) :
    .replyAck (cmdDatagram 3 h.qtype.toU16 h.seqid []) ∈ out := by
  have hack : .replyAck (cmdDatagram 3 h.qtype.toU16 h.seqid []) ∈
      (CmdClient.replyAckOf h : List (CmdOutput κ)) := by
    rw [CmdClient.replyAckOf, if_pos ht]
    exact List.mem_singleton_self _
  cases hs.effect with
  | ignored hr' =>
    cases hr.symm.trans hr'
    exact hack
  | acked hr' =>
    cases hr.symm.trans hr'
    exact hack
  | replied hr' =>
    cases hr.symm.trans hr'
    exact List.mem_append_left _ hack

/-- A reply to a query that waits for one is delivered with its payload. -/
theorem CmdStep.delivered_of_reply (hs : CmdStep c (.packetReceived msg) out c')
    (hr : CmdHeader.read msg = some (h, rest)) (ht : h.type = .kReply)
    (hf : c.findState h.seqid = some st) (hst : st.state = .kReply)
    (hcb : st.replyCallback = some cb) : h.payloadSize ≤ rest.length ∧
      .replyCallback st.query cb true (rest.take h.payloadSize) ∈ out := by
  cases hs.effect with
  | ignored hr' hno =>
    cases hr.symm.trans hr'
    exact ((hno st hf (ht.trans hst.symm)).1 ht).elim
  | acked hr' hf' ht' =>
    cases hr.symm.trans hr'
    rw [ht] at ht'
    cases ht'
  | replied hr' hf' _ _ _ _ _ hd =>
    cases hr.symm.trans hr'
    cases hf.symm.trans hf'
    obtain ⟨hle, rfl⟩ := hd (by simp [hcb])
    exact ⟨hle, List.mem_append_right _ (mem_invoke.mpr ⟨cb, hcb, rfl⟩)⟩

/-- What makes a callback run: a reply to the query whose entry waits for it, with the payload of
that reply, or an expiry of the query's timer. -/
theorem CmdEffect.callback (he : CmdEffect c a out c')
    (hmem : .replyCallback q cb ok data ∈ out) :
    (ok = true ∧ ∃ msg h rest st, a = .packetReceived msg ∧
      CmdHeader.read msg = some (h, rest) ∧ h.type = .kReply ∧ c.findState h.seqid = some st ∧
      st.query = q ∧ st.state = .kReply ∧ st.replyCallback = some cb ∧
      h.payloadSize ≤ rest.length ∧ data = rest.take h.payloadSize) ∨
    (ok = false ∧ .expired q ∈ out ∧ ∃ evt fd, a = .timer evt fd) := by
  cases he with
  | issued | retried => simp at hmem
  | ignored | acked =>
    obtain ⟨bytes, ho⟩ := mem_replyAckOf hmem
    cases ho
  | @replied msg rest data h st evt e hr hf ht hst _ _ _ hd =>
    rcases List.mem_append.mp hmem with hmem | hmem
    · obtain ⟨bytes, ho⟩ := mem_replyAckOf hmem
      cases ho
    · obtain ⟨cb', hcb', ho⟩ := mem_invoke.mp hmem
      cases ho
      obtain ⟨hle, hdata⟩ := hd (by simp [hcb'])
      exact Or.inl ⟨rfl, msg, h, rest, st, rfl, hr, ht, hf, rfl, hst, hcb', hle, hdata⟩
  | failed =>
    rcases List.mem_cons.mp hmem with hmem | hmem
    · cases hmem
    · obtain ⟨cb', -, ho⟩ := mem_invoke.mp hmem
      cases ho
      exact Or.inr ⟨rfl, List.mem_cons_self, _, _, rfl⟩

/-- A callback is told of success only by a reply with its query's id. -/
theorem CmdEffect.success (he : CmdEffect c a out c') (hi : CmdInv c)
    (hmem : .replyCallback q cb true data ∈ out) :
    (∃ msg h rest, a = .packetReceived msg ∧ CmdHeader.read msg = some (h, rest) ∧
      h.type = .kReply ∧ h.seqid = q.toUInt16 ∧ h.payloadSize ≤ rest.length ∧
      data = rest.take h.payloadSize) ∧
    ∃ st, c.findState q.toUInt16 = some st ∧ st.query = q ∧ st.state = .kReply ∧
      st.replyCallback = some cb := by
  rcases he.callback hmem with ⟨-, msg, h, rest, st, ha, hr, ht, hf, rfl, hst, hcb, hle, hdata⟩ | h
  · have hid := (hi.entry _ _ hf).seqid_eq
    exact ⟨⟨msg, h, rest, ha, hr, ht, hid, hle, hdata⟩, st, hid ▸ hf, rfl, hst, hcb⟩
  · cases h.1

/-- An expiry is that of a registered timer, and either gives up, after ten of them, or transmits
again. -/
theorem CmdEffect.expired (he : CmdEffect c a out c') (hmem : .expired q ∈ out) :
    ∃ evt fd seqid st, a = .timer evt fd ∧ c.em.events.lookup evt.fd = some evt ∧
      evt.callback = .user (.retryOperation seqid) ∧ c.findState seqid = some st ∧ st.query = q ∧
      (kMaxRetries ≤ st.retriesCount + 1 ∧ out = .expired q :: CmdClient.invoke st false [] ∨
        st.retriesCount + 1 < kMaxRetries ∧ ∃ bytes, out = [.expired q, .query q bytes]) := by
  cases he with
  | issued => simp at hmem
  | ignored | acked =>
    obtain ⟨bytes, ho⟩ := mem_replyAckOf hmem
    cases ho
  | replied =>
    rcases List.mem_append.mp hmem with hmem | hmem
    · obtain ⟨bytes, ho⟩ := mem_replyAckOf hmem
      cases ho
    · obtain ⟨cb', -, ho⟩ := mem_invoke.mp hmem
      cases ho
  | failed hlook hcb _ hf hmax =>
    rcases List.mem_cons.mp hmem with hmem | hmem
    · cases hmem
      exact ⟨_, _, _, _, rfl, hlook, hcb, hf, rfl, Or.inl ⟨hmax, rfl⟩⟩
    · obtain ⟨cb', -, ho⟩ := mem_invoke.mp hmem
      cases ho
  | retried hlook hcb _ hf hmax _ =>
    simp at hmem
    subst hmem
    exact ⟨_, _, _, _, rfl, hlook, hcb, hf, rfl, Or.inr ⟨hmax, _, rfl⟩⟩

theorem firesTimerOf_of_isExpiry (h : isExpiry q tr a = true) : firesTimerOf q a = true := by
  simp only [isExpiry, Bool.and_eq_true] at h
  exact h.1.1

/-- A registered timer is a query's exactly when the query's entry holds it. -/
theorem HistInv.isExpiry_iff (hh : HistInv tr c) (hi : CmdInv c) {evt : Event CmdEvent}
    (hlook : c.em.events.lookup evt.fd = some evt) : isExpiry q tr (.timer evt fd) = true ↔
      ∃ seqid st, c.findState seqid = some st ∧ st.query = q ∧ st.timeoutEvt = some evt := by
  constructor
  · intro hexp
    have hcb : evt.callback = .user (.retryOperation q.toUInt16) :=
      of_decide_eq_true (firesTimerOf_of_isExpiry hexp)
    obtain ⟨-, st, hf, ht⟩ := hi.timer _ evt _ hlook hcb
    exact ⟨_, st, hf, (hh.isExpiry_timer hi hcb hf).mp hexp, ht⟩
  · rintro ⟨seqid, st, hf, hq, ht⟩
    exact (hh.isExpiry_timer hi ((hi.entry _ _ hf).lookup ht).2 hf).mpr hq

/-- The client's own record of an expiry agrees with the timer that fires. -/
theorem CmdStep.expired_iff (hs : CmdStep c a out c') (hpre : CmdRun stopFd pre c) :
    .expired q ∈ out ↔ isExpiry q pre a = true := by
  have hi := cmdInv_run hpre
  have hh := histInv_run hpre
  constructor
  · intro hmem
    obtain ⟨evt, fd, seqid, st, rfl, -, hcb, hf, hq, -⟩ := hs.effect.expired hmem
    exact (hh.isExpiry_timer hi hcb hf).mpr hq
  · intro hexp
    cases hs.effect with
    | issued | ignored | acked | replied => cases hexp
    | failed _ hcb _ hf _ | retried _ hcb _ hf _ _ =>
      obtain rfl := (hh.isExpiry_timer hi hcb hf).mp hexp
      exact List.mem_cons_self

/-- How a query issued with callback `cb` fares in a run that leads to `c`. An expiry is a timer
step of the run on the query's own timer, which is the one its entry holds. -/
structure Completion (tr : CmdTrace κ) (c : CmdClient κ) (q : ℕ) (cb : Option κ) : Prop where
  once : (completions q (outputs tr)).length ≤ 1
  own : ∀ x ∈ completions q (outputs tr), cb = some x.1
  left_iff : cb.isSome → (completions q (outputs tr) ≠ [] ↔ ¬ InFlight c q)
  success : ∀ pre a out post cb' data, tr = pre ++ (a, out) :: post →
    .replyCallback q cb' true data ∈ out → IsReply q a ∧ AckedSinceSent q pre
  failure : ∀ pre a out post cb', tr = pre ++ (a, out) :: post → cb = some cb' →
    ((∃ data, .replyCallback q cb' false data ∈ out) ↔
      isExpiry q pre a = true ∧ expiries q pre = 9)
  timer : ∀ evt fd, c.em.events.lookup evt.fd = some evt →
    (isExpiry q tr (.timer evt fd) = true ↔
      ∃ seqid st, c.findState seqid = some st ∧ st.query = q ∧ st.timeoutEvt = some evt)
  bounded : ∀ seqid st, c.findState seqid = some st → st.query = q →
    st.retriesCount ≤ 9 ∧ expiries q tr = st.retriesCount ∧
      sends q (outputs tr) = st.retriesCount + 1

theorem HistInv.completions_map (hh : HistInv tr c) {cb : Option κ}
    (hq : (issuedCallbacks tr)[q]? = some cb) :
    InFlight c q ∧ completions q (outputs tr) = [] ∨
      ¬ InFlight c q ∧ (completions q (outputs tr)).map Prod.fst = cb.toList := by
  by_cases hin : InFlight c q
  · obtain ⟨seqid, st, hf, rfl⟩ := id hin
    exact Or.inl ⟨hin, (hh.entry _ _ hf).completions_eq⟩
  · exact Or.inr ⟨hin, hh.gone q cb hq hin⟩

/-- A callback stays with its query over the rest of the run. -/
theorem issuedCallbacks_of_entry (hh : HistInv pre c) (hf : c.findState seqid = some st)
    {x : CmdAction κ × List (CmdOutput κ)} :
    (issuedCallbacks (pre ++ x :: post))[st.query]? = some st.replyCallback := by
  have hcb := (hh.entry _ _ hf).callback_eq
  rw [issuedCallbacks, List.filterMap_append]
  exact (List.getElem?_append_left (List.getElem?_eq_some_iff.mp hcb).1).trans hcb

/-- A success follows an acknowledgement of the latest transmission. -/
theorem CmdStep.success_acked (hs : CmdStep c a out c') (hpre : CmdRun stopFd pre c)
    (hmem : .replyCallback q cb true data ∈ out) : IsReply q a ∧ AckedSinceSent q pre := by
  obtain ⟨⟨msg, h, rest, ha, hr, ht, hid, -⟩, st, hf, rfl, hst, -⟩ :=
    hs.effect.success (cmdInv_run hpre) hmem
  exact ⟨⟨msg, h, rest, ha, hr, ht, hid⟩, ((histInv_run hpre).entry _ _ hf).acked_iff.mp hst⟩

/-- The tenth expiry and no other fails the query. -/
theorem CmdStep.failure_iff (hs : CmdStep c a out c') (hpre : CmdRun stopFd pre c)
    (hcb : ∀ seqid st, c.findState seqid = some st → st.query = q → st.replyCallback = some cb) :
    (∃ data, .replyCallback q cb false data ∈ out) ↔
      isExpiry q pre a = true ∧ expiries q pre = 9 := by
  have hh := histInv_run hpre
  rw [← hs.expired_iff hpre]
  have hten : kMaxRetries = 10 := rfl
  constructor
  · rintro ⟨data, hmem⟩
    have hexp : .expired q ∈ out := by
      rcases hs.effect.callback hmem with h | h
      · cases h.1
      · exact h.2.1
    refine ⟨hexp, ?_⟩
    obtain ⟨_, _, seqid, st, -, -, -, hf, rfl, ⟨hmax, -⟩ | ⟨-, bytes, rfl⟩⟩ :=
      hs.effect.expired hexp
    · rw [(hh.entry _ _ hf).expiries_eq]
      have := ((cmdInv_run hpre).entry _ _ hf).retries_le
      omega
    · simp at hmem
  · rintro ⟨hexp, hnine⟩
    obtain ⟨_, _, seqid, st, -, -, -, hf, rfl, ⟨-, rfl⟩ | ⟨hmax, -⟩⟩ := hs.effect.expired hexp
    · exact ⟨[], List.mem_cons_of_mem _ (mem_invoke.mpr ⟨cb, hcb seqid st hf rfl, rfl⟩)⟩
    · rw [(hh.entry _ _ hf).expiries_eq] at hnine
      omega

/-- Every query completes at most once; it succeeds only after its acknowledged transmission is
replied to, fails exactly at the tenth expiry, and is sent once more than it was retried. -/
theorem query_completion {cb : Option κ} (hrun : CmdRun stopFd tr c)
    (hq : (issuedCallbacks tr)[q]? = some cb) : Completion tr c q cb := by
  have hh := histInv_run hrun
  have hcases := hh.completions_map hq
  refine ⟨?_, ?_, ?_, ?_, ?_, ?_, ?_⟩
  · rcases hcases with ⟨-, hnil⟩ | ⟨-, hmap⟩
    · simp [hnil]
    · have hlen := congrArg List.length hmap
      rw [List.length_map] at hlen
      rw [hlen]
      cases cb <;> simp
  · intro x hx
    rcases hcases with ⟨-, hnil⟩ | ⟨-, hmap⟩
    · simp [hnil] at hx
    · have hx' := List.mem_map_of_mem (f := Prod.fst) hx
      rw [hmap] at hx'
      simpa using hx'
  · intro hsome
    obtain ⟨cb', rfl⟩ := Option.isSome_iff_exists.mp hsome
    rcases hcases with ⟨hin, hnil⟩ | ⟨hout, hmap⟩
    · simp [hin, hnil]
    · refine ⟨fun _ => hout, fun _ hnil => ?_⟩
      simp [hnil] at hmap
  · rintro pre a out post cb' data rfl hmem
    obtain ⟨c₁, c₂, hpre, hstep, -⟩ := Steps.split hrun
    exact hstep.success_acked hpre hmem
  · rintro pre a out post cb' rfl rfl
    obtain ⟨c₁, c₂, hpre, hstep, -⟩ := Steps.split hrun
    refine hstep.failure_iff hpre ?_
    rintro seqid st hf rfl
    exact Option.some.inj ((issuedCallbacks_of_entry (histInv_run hpre) hf).symm.trans hq)
  · exact fun evt fd hlook => hh.isExpiry_iff (cmdInv_run hrun) hlook
  · rintro seqid st hf rfl
    have he := hh.entry _ _ hf
    exact ⟨((cmdInv_run hrun).entry _ _ hf).retries_le, he.expiries_eq, he.sends_eq⟩

theorem EventMachine.exists_fd_notMem {ε : Type} (em : EventMachine ε) : ∃ fd, fd ∉ em.events := by
  obtain ⟨fd, hfd⟩ := Infinite.exists_notMem_finset em.events.keys.toFinset
  exact ⟨fd, fun h => hfd (List.mem_toFinset.mpr (AList.mem_keys.mp h))⟩

/-- The timer of a query in flight can fire: it either fails the query or has it sent again. -/
theorem CmdRun.fires (hrun : CmdRun stopFd tr c) (hf : c.findState seqid = some st) :
    ∃ evt fd out c', CmdStep c (.timer evt fd) out c' ∧
      isExpiry st.query tr (.timer evt fd) = true ∧
      (st.retriesCount = 9 ∧ out = .expired st.query :: CmdClient.invoke st false [] ∨
        ∃ st', c'.findState seqid = some st' ∧ st'.query = st.query ∧
          st'.replyCallback = st.replyCallback ∧ st'.retriesCount = st.retriesCount + 1) := by
  have hi := cmdInv_run hrun
  have he := hi.entry _ _ hf
  obtain ⟨evt, ht, hlook, hcb⟩ := he.timer
  obtain ⟨fd, hfd⟩ := c.em.exists_fd_notMem
  have hexp : isExpiry st.query tr (.timer evt fd) = true :=
    ((histInv_run hrun).isExpiry_timer hi hcb hf).mpr rfl
  by_cases hmax : kMaxRetries ≤ st.retriesCount + 1
  · have hnine : st.retriesCount = 9 := Nat.le_antisymm he.retries_le (Nat.le_of_succ_le_succ hmax)
    exact ⟨evt, fd, _, _, (CmdEffect.failed hlook hcb hfd hf hmax).step (by simp), hexp,
      Or.inl ⟨hnine, rfl⟩⟩
  · exact ⟨evt, fd, _, _, (CmdEffect.retried hlook hcb hfd hf (Nat.lt_of_not_le hmax)
      he.payload_le).step (by simp), hexp,
      Or.inr ⟨_, CmdClient.findState_sentClient_self, rfl, rfl, rfl⟩⟩

/-- When nothing but its timer happens to a query in flight, the timer fires until the tenth
expiry, and that one fails the query. -/
theorem CmdRun.unanswered (hrun : CmdRun stopFd tr c) (hf : c.findState seqid = some st)
    (hcb : st.replyCallback = some cb) : ∃ post c', CmdRun stopFd (tr ++ post) c' ∧
      (∀ x ∈ post, firesTimerOf st.query x.1 = true) ∧ expiries st.query (tr ++ post) = 10 ∧
      completions st.query (outputs (tr ++ post)) = [(cb, false, [])] := by
  -- on the number of expiries before the last one
  induction hn : 9 - st.retriesCount generalizing tr c st with
  | zero =>
    obtain ⟨evt, fd, out, c', hs, hexp, ⟨hnine, rfl⟩ | ⟨st', hf', -, -, hcount⟩⟩ := hrun.fires hf
    · have hh := (histInv_run hrun).entry _ _ hf
      refine ⟨[(.timer evt fd, _)], c', hrun.snoc hs, ?_, ?_, ?_⟩
      · simp only [List.mem_singleton, forall_eq]
        exact firesTimerOf_of_isExpiry hexp
      · rw [expiries_snoc, hexp, hh.expiries_eq, hnine]
        rfl
      · have hinvoke : completions st.query (CmdClient.invoke st false []) = [(cb, false, [])] := by
          rw [completions_invoke, if_pos rfl, hcb]
          rfl
        rw [outputs_snoc, completions_append, hh.completions_eq]
        exact hinvoke
    · have hle := ((cmdInv_run (hrun.snoc hs)).entry _ _ hf').retries_le
      omega
  | succ n ih =>
    obtain ⟨evt, fd, out, c', hs, hexp, ⟨hnine, -⟩ | ⟨st', hf', hq, hcb', hcount⟩⟩ := hrun.fires hf
    · omega
    · obtain ⟨post, c'', hrun', hfires, hten, hcomp⟩ :=
        ih (hrun.snoc hs) hf' (hcb'.trans hcb) (by omega)
      rw [hq] at hfires hten hcomp
      rw [List.append_assoc] at hrun' hten hcomp
      refine ⟨(.timer evt fd, out) :: post, c'', hrun', ?_, hten, hcomp⟩
      simp only [List.mem_cons, forall_eq_or_imp]
      exact ⟨firesTimerOf_of_isExpiry hexp, hfires⟩

/-- The client after its first query, sent with a timer on descriptor 4. -/
def firstQuery (cb : Option κ) : CmdClient κ :=
  { CmdClient.create 3 with seqid := 1, issued := 1 }.sentClient 0
    ((CmdClient.create 3).freshState .kUvcUacCommand [] cb) 4

theorem firstQuery_step (cb : Option κ) : CmdStep (CmdClient.create 3)
    (.asyncQuery .kUvcUacCommand [] cb 4) [.query 0 (cmdDatagram 0 1 0 [])] (firstQuery cb) := by
  have hfd : 4 ∉ (CmdClient.create 3 : CmdClient κ).em.events :=
    AList.lookup_eq_none.mp (EventMachine.lookup_create 3 4)
  exact (CmdEffect.issued hfd rfl (Nat.zero_le _)).step (by simp)

/-- The client once that query is acknowledged. -/
def firstAcked (cb : Option κ) : CmdClient κ :=
  (firstQuery cb).storeState 0
    { (firstQuery cb).sentState 0 ((CmdClient.create 3).freshState .kUvcUacCommand [] cb) 4 with
      timeoutEvt := some ⟨1, 4, 8, .user (.retryOperation 0)⟩, state := .kReply }

theorem firstAcked_step (cb : Option κ) : CmdStep (firstQuery cb)
    (.packetReceived (cmdDatagram 1 1 0 [])) [] (firstAcked cb) := by
  have hr : CmdHeader.read (cmdDatagram 1 1 0 []) = some (⟨1, 1, 0, 0⟩, []) :=
    CmdHeader.read_cmdDatagram (by decide)
  exact (CmdEffect.acked hr CmdClient.findState_sentClient_self rfl rfl).step (by
    intro msg hmsg
    cases hmsg
    decide)

/-- A reply carrying `data` to that query. -/
theorem firstReply_step (cb : κ) {data : List UInt8} (hlen : data.length ≤ kMaxCmdPayloadSize) :
    CmdStep (firstAcked (some cb)) (.packetReceived (cmdDatagram 2 1 0 data))
      [.replyAck (cmdDatagram 3 1 0 []), .replyCallback 0 cb true data]
      ((firstAcked (some cb)).complete 0 ⟨1, 4, 8, .user (.retryOperation 0)⟩) := by
  have hr : CmdHeader.read (cmdDatagram 2 1 0 data) = some (⟨2, 1, data.length, 0⟩, data) :=
    CmdHeader.read_cmdDatagram (Nat.lt_of_le_of_lt hlen (by decide))
  have hlook : (firstAcked (some cb)).em.events.lookup 4 =
      some ⟨1, 4, 8, .user (.retryOperation 0)⟩ := AList.lookup_insert _
  have hf : (firstAcked (some cb)).findState (0 : UInt16) = some _ :=
    CmdClient.findState_storeState_self
  refine CmdEffect.step (CmdEffect.replied hr hf rfl rfl rfl hlook rfl
    (fun _ => ⟨le_rfl, (List.take_length).symm⟩)) ?_
  intro msg hmsg
  cases hmsg
  simp [cmdDatagram]
  omega

/-- The theorem at a query that is acknowledged and then answered with two bytes, and at one that
nobody answers, whose timer fires ten times. -/
theorem query_completion_exchange :
    (∃ (tr : CmdTrace ℕ) (c : CmdClient ℕ), CmdRun 3 tr c ∧
      completions 0 (outputs tr) = [(7, true, [1, 2])] ∧ Completion tr c 0 (some 7)) ∧
    ∃ (tr : CmdTrace ℕ) (c : CmdClient ℕ), CmdRun 3 tr c ∧ expiries 0 tr = 10 ∧
      completions 0 (outputs tr) = [(7, false, [])] ∧ Completion tr c 0 (some 7) := by
  have hquery : CmdRun 3 _ _ := Steps.single (firstQuery_step (some 7))
  constructor
  · have hlen : ([1, 2] : List UInt8).length ≤ kMaxCmdPayloadSize := by decide
    have hrun : CmdRun 3 _ _ :=
      (hquery.snoc (firstAcked_step (some 7))).snoc (firstReply_step 7 hlen)
    exact ⟨_, _, hrun, rfl, query_completion hrun rfl⟩
  · obtain ⟨post, c, hrun, -, hten, hcomp⟩ :=
      CmdRun.unanswered hquery CmdClient.findState_sentClient_self rfl
    exact ⟨_, c, hrun, hten, hcomp, query_completion hrun rfl⟩

end Pc2Drc
