import Pc2Drc.CmdProtocol

/-! What each step of the command client does, with the packet bytes already read. -/
namespace Pc2Drc
open Lib

variable {κ : Type}

namespace CmdClient

variable {c c' : CmdClient κ} {seqid : UInt16} {st : CmdState κ} {fd : Fd}
  {out : List (CmdOutput κ)}

/-- The timer event a transmission registers. -/
def retryTimer (c : CmdClient κ) (seqid : UInt16) (fd : Fd) : Event CmdEvent :=
  ⟨c.em.nextPtr, fd, 8, .user (.retryOperation seqid)⟩

/-- The state of a query right after a transmission. -/
def sentState (c : CmdClient κ) (seqid : UInt16) (st : CmdState κ) (fd : Fd) : CmdState κ :=
  { st with timeoutEvt := some (c.retryTimer seqid fd), state := .kQueryAck }

/-- The client right after a transmission. -/
def sentClient (c : CmdClient κ) (seqid : UInt16) (st : CmdState κ) (fd : Fd) : CmdClient κ :=
  { c with em := (c.em.newTimerEvent fd (.user (.retryOperation seqid))).1 }.storeState seqid
    (c.sentState seqid st fd)

/-- The datagram of a query. -/
def queryDatagram (seqid : UInt16) (st : CmdState κ) : List UInt8 :=
  cmdDatagram 0 st.queryType.toU16 seqid st.queryPayload

theorem sendQuery_eq (h : st.queryPayload.length ≤ kMaxCmdPayloadSize) :
    c.sendQuery seqid st fd =
      .ok (c.sentClient seqid st fd, [.query st.query (queryDatagram seqid st)]) := by
  obtain ⟨p, hp, hb⟩ := CmdPacket.getBytes_query .kQuery st.queryType seqid h
  rw [sendQuery, hp]
  simp only [bind, Except.bind, hb]
  rfl

theorem sendQuery_error (h : ¬ st.queryPayload.length ≤ kMaxCmdPayloadSize) :
    c.sendQuery seqid st fd = .error .assertion := by
  rw [sendQuery, CmdPacket.setPayload, dif_neg h]
  rfl

theorem sendQuery_eq_ok : c.sendQuery seqid st fd = .ok (c', out) ↔
    st.queryPayload.length ≤ kMaxCmdPayloadSize ∧ c' = c.sentClient seqid st fd ∧
      out = [.query st.query (queryDatagram seqid st)] := by
  by_cases h : st.queryPayload.length ≤ kMaxCmdPayloadSize
  · simp [sendQuery_eq h, h, eq_comm]
  · simp [sendQuery_error h, h]

theorem sendReplyAck_eq (qtype : CmdQueryType) :
    (sendReplyAck seqid qtype : Except Fault (CmdOutput κ)) =
      .ok (.replyAck (cmdDatagram 3 qtype.toU16 seqid [])) := by
  rw [sendReplyAck, CmdPacket.getBytes_header]
  rfl

/-- The entry a fresh query starts from. -/
def freshState (c : CmdClient κ) (qtype : CmdQueryType) (payload : List UInt8) (cb : Option κ) :
    CmdState κ :=
  { state := .kQuery, queryType := qtype, replyCallback := cb, queryPayload := payload,
    timeoutEvt := none, retriesCount := 0, query := c.issued }

theorem asyncQuery_eq_ok {qtype : CmdQueryType} {payload : List UInt8} {cb : Option κ} :
    c.asyncQuery qtype payload cb fd = .ok (c', out) ↔
      c.findState c.seqid = none ∧ payload.length ≤ kMaxCmdPayloadSize ∧
      c' = { c with seqid := c.seqid + 1, issued := c.issued + 1 }.sentClient c.seqid
        (c.freshState qtype payload cb) fd ∧
      out = [.query c.issued (cmdDatagram 0 qtype.toU16 c.seqid payload)] := by
  unfold asyncQuery
  cases hf : c.findState c.seqid with
  | some st => simp [hf, bind, Except.bind]
  | none =>
    simp only [hf, Option.isSome_none, Bool.false_eq_true, if_false, sendQuery_eq_ok, true_and]
    rfl

/-- The acknowledgement sent for every reply. -/
def replyAckOf (h : CmdHeader) : List (CmdOutput κ) :=
  if h.type = .kReply then [.replyAck (cmdDatagram 3 h.qtype.toU16 h.seqid [])] else []

/-- `PacketReceived` after the header was read; `payload` is the read of the payload, which
happens only for a callback. -/
def handlePacket (c : CmdClient κ) (h : CmdHeader) (payload : Except Fault (List UInt8)) :
    Except Fault (CmdClient κ × List (CmdOutput κ)) :=
  match c.findState h.seqid with
  | none => .ok (c, replyAckOf h)
  | some st =>
    if h.type ≠ st.state then .ok (c, replyAckOf h)
    else if h.type = .kReply then do
      let c ← c.cancelTimeout st
      let repl ← replyData st payload
      return (c.removeState h.seqid, replyAckOf h ++ invoke st true repl)
    else if h.type = .kQueryAck then
      .ok (c.storeState h.seqid { st with state := .kReply }, replyAckOf h)
    else .ok (c, replyAckOf h)

theorem packetReceived_eq {msg rest : List UInt8} {h : CmdHeader} {p : CmdPacket}
    (hp : CmdPacket.ofPacket msg = .ok p) (hr : CmdHeader.read msg = some (h, rest)) :
    c.packetReceived msg = c.handlePacket h p.payload := by
  obtain ⟨ht, hq, hs, -⟩ := CmdPacket.getters_ofPacket hp hr
  have hack : ackReply p h.type = .ok (replyAckOf h : List (CmdOutput κ)) := by
    unfold ackReply replyAckOf
    split
    · rw [hs, hq]
      simp only [bind, Except.bind, sendReplyAck_eq]
      rfl
    · rfl
  unfold packetReceived
  rw [hp]
  simp only [bind, Except.bind, ht, hs, hack]
  rfl

/-- A datagram that is received without a fault fits the buffer and has a whole header. -/
theorem packetReceived_header {msg : List UInt8} (hrec : c.packetReceived msg = .ok (c', out)) :
    ∃ p h rest, CmdPacket.ofPacket msg = .ok p ∧ CmdHeader.read msg = some (h, rest) := by
  unfold packetReceived at hrec
  obtain ⟨p, hp, hrec⟩ := bind_eq_ok.mp hrec
  obtain ⟨type, -, hrec⟩ := bind_eq_ok.mp hrec
  obtain ⟨acks, -, hrec⟩ := bind_eq_ok.mp hrec
  obtain ⟨seqid, hs, -⟩ := bind_eq_ok.mp hrec
  cases hr : CmdHeader.read msg with
  | none => exact (CmdPacket.seqId_ofPacket hp hr seqid hs).elim
  | some hdr => exact ⟨p, hdr.1, hdr.2, hp, rfl⟩

theorem cancelTimeout_eq_ok : c.cancelTimeout st = .ok c' ↔
    ∃ evt e, st.timeoutEvt = some evt ∧ c.em.events.lookup evt.fd = some e ∧ e.ptr = evt.ptr ∧
      c' = { c with em := { c.em with events := c.em.events.erase evt.fd } } := by
  unfold cancelTimeout
  cases ht : st.timeoutEvt with
  | none => simp
  | some evt =>
    simp only [bind_eq_ok, EventMachine.cancelEvent_eq_ok, pure, Except.pure, Except.ok.injEq]
    constructor
    · rintro ⟨em, ⟨e, hlook, hptr, rfl⟩, rfl⟩
      exact ⟨evt, e, rfl, hlook, hptr, rfl⟩
    · rintro ⟨evt', e, hevt, hlook, hptr, rfl⟩
      cases hevt
      exact ⟨_, ⟨e, hlook, hptr, rfl⟩, rfl⟩

/-- A query leaves together with its timer. -/
def complete (c : CmdClient κ) (seqid : UInt16) (evt : Event CmdEvent) : CmdClient κ :=
  { c with em := { c.em with events := c.em.events.erase evt.fd } }.removeState seqid

/-- A query is sent again with a new timer, and the fired one goes. -/
def retransmit (c : CmdClient κ) (seqid : UInt16) (st : CmdState κ) (evt : Event CmdEvent)
    (fd : Fd) : CmdClient κ :=
  let c' := c.sentClient seqid { st with retriesCount := st.retriesCount + 1 } fd
  { c' with em := { c'.em with events := c'.em.events.erase evt.fd } }

end CmdClient

/-- Everything a step can do. -/
inductive CmdEffect (c : CmdClient κ) :
    CmdAction κ → List (CmdOutput κ) → CmdClient κ → Prop
  | issued {qtype : CmdQueryType} {payload : List UInt8} {cb : Option κ} {fd : Fd} :
      fd ∉ c.em.events → c.findState c.seqid = none → payload.length ≤ kMaxCmdPayloadSize →
      CmdEffect c (.asyncQuery qtype payload cb fd)
        [.query c.issued (cmdDatagram 0 qtype.toU16 c.seqid payload)]
        ({ c with seqid := c.seqid + 1, issued := c.issued + 1 }.sentClient c.seqid
          (c.freshState qtype payload cb) fd)
  | ignored {msg rest : List UInt8} {h : CmdHeader} :
      CmdHeader.read msg = some (h, rest) →
      (∀ st, c.findState h.seqid = some st → h.type = st.state →
        h.type ≠ .kReply ∧ h.type ≠ .kQueryAck) →
      CmdEffect c (.packetReceived msg) (CmdClient.replyAckOf h) c
  | acked {msg rest : List UInt8} {h : CmdHeader} {st : CmdState κ} :
      CmdHeader.read msg = some (h, rest) → c.findState h.seqid = some st →
      h.type = .kQueryAck → st.state = .kQueryAck →
      CmdEffect c (.packetReceived msg) (CmdClient.replyAckOf h)
        (c.storeState h.seqid { st with state := .kReply })
  | replied {msg rest data : List UInt8} {h : CmdHeader} {st : CmdState κ}
      {evt e : Event CmdEvent} :
      CmdHeader.read msg = some (h, rest) → c.findState h.seqid = some st →
      h.type = .kReply → st.state = .kReply → st.timeoutEvt = some evt →
      c.em.events.lookup evt.fd = some e → e.ptr = evt.ptr →
      (st.replyCallback.isSome → h.payloadSize ≤ rest.length ∧ data = rest.take h.payloadSize) →
      CmdEffect c (.packetReceived msg) (CmdClient.replyAckOf h ++ CmdClient.invoke st true data)
        (c.complete h.seqid evt)
  | failed {evt : Event CmdEvent} {seqid : UInt16} {fd : Fd} {st : CmdState κ} :
      c.em.events.lookup evt.fd = some evt → evt.callback = .user (.retryOperation seqid) →
      fd ∉ c.em.events → c.findState seqid = some st → kMaxRetries ≤ st.retriesCount + 1 →
      CmdEffect c (.timer evt fd) (.expired st.query :: CmdClient.invoke st false [])
        (c.complete seqid evt)
  | retried {evt : Event CmdEvent} {seqid : UInt16} {fd : Fd} {st : CmdState κ} :
      c.em.events.lookup evt.fd = some evt → evt.callback = .user (.retryOperation seqid) →
      fd ∉ c.em.events → c.findState seqid = some st → st.retriesCount + 1 < kMaxRetries →
      st.queryPayload.length ≤ kMaxCmdPayloadSize →
      CmdEffect c (.timer evt fd)
        [.expired st.query, .query st.query (CmdClient.queryDatagram seqid st)]
        (c.retransmit seqid st evt fd)

theorem CmdStep.effect {c c' : CmdClient κ} {a : CmdAction κ} {out : List (CmdOutput κ)}
    (hs : CmdStep c a out c') : CmdEffect c a out c' := by
  cases hs with
  | asyncQuery hfd h =>
    obtain ⟨hnone, hlen, rfl, rfl⟩ := CmdClient.asyncQuery_eq_ok.mp h
    exact .issued hfd hnone hlen
  | packetReceived hrec =>
    obtain ⟨p, h, rest, hp, hr⟩ := CmdClient.packetReceived_header hrec
    rw [CmdClient.packetReceived_eq hp hr, CmdClient.handlePacket] at hrec
    cases hf : c.findState h.seqid with
    | none =>
      rw [hf] at hrec
      cases hrec
      exact .ignored hr (by simp [hf])
    | some st =>
      simp only [hf] at hrec
      split_ifs at hrec with hne hreply hack
      · cases hrec
        refine .ignored hr ?_
        intro st' hst' heq
        cases hf.symm.trans hst'
        exact (hne heq).elim
      · rw [not_not] at hne
        obtain ⟨c1, hc1, hrec⟩ := bind_eq_ok.mp hrec
        obtain ⟨data, hdata, hrec⟩ := bind_eq_ok.mp hrec
        obtain ⟨evt, e, hevt, hlook, hptr, rfl⟩ := CmdClient.cancelTimeout_eq_ok.mp hc1
        cases hrec
        have hd : st.replyCallback.isSome → h.payloadSize ≤ rest.length ∧
            data = rest.take h.payloadSize := by
          intro hsome
          rw [CmdClient.replyData, if_pos hsome] at hdata
          exact (CmdPacket.payload_ofPacket hp hr).mp hdata
        exact .replied hr hf hreply (hne ▸ hreply) hevt hlook hptr hd
      · rw [not_not] at hne
        cases hrec
        exact .acked hr hf hack (hne ▸ hack)
      · cases hrec
        exact .ignored hr (fun _ _ _ => ⟨hreply, hack⟩)
  | timer hlook hcb hfd h =>
    rename_i evt seqid fd
    obtain ⟨⟨c1, out1⟩, hretry, h⟩ := bind_eq_ok.mp h
    cases h
    unfold CmdClient.retryOperation at hretry
    cases hf : c.findState seqid with
    | none => simp [hf] at hretry
    | some st =>
      simp only [hf] at hretry
      split_ifs at hretry with hmax
      · cases hretry
        exact .failed hlook hcb hfd hf hmax
      · obtain ⟨⟨c2, out2⟩, hsend, hretry⟩ := bind_eq_ok.mp hretry
        cases hretry
        obtain ⟨hlen, rfl, rfl⟩ := CmdClient.sendQuery_eq_ok.mp hsend
        exact .retried hlook hcb hfd hf (by omega) hlen

/-- Conversely every listed effect is a step, when the received datagram fits the buffer. -/
theorem CmdEffect.step {c c' : CmdClient κ} {a : CmdAction κ} {out : List (CmdOutput κ)}
    (he : CmdEffect c a out c')
    (hfit : ∀ msg, a = .packetReceived msg → msg.length ≤ kCmdHeaderSize + kMaxCmdPayloadSize) :
    CmdStep c a out c' := by
  cases he with
  | issued hfd hnone hlen =>
    exact .asyncQuery hfd (CmdClient.asyncQuery_eq_ok.mpr ⟨hnone, hlen, rfl, rfl⟩)
  | @ignored msg rest h hr hno =>
    obtain ⟨p, hp⟩ := CmdPacket.ofPacket_eq_ok.mpr (hfit msg rfl)
    refine .packetReceived ?_
    rw [CmdClient.packetReceived_eq hp hr, CmdClient.handlePacket]
    cases hf : c.findState h.seqid with
    | none => rfl
    | some st =>
      by_cases heq : h.type = st.state
      · obtain ⟨hreply, hack⟩ := hno st hf heq
        simp only [heq, ne_eq, not_true_eq_false, if_false]
        rw [if_neg (heq ▸ hreply), if_neg (heq ▸ hack)]
      · simp only [ne_eq, heq, not_false_eq_true, if_true]
  | @acked msg rest h st hr hf ht hst =>
    obtain ⟨p, hp⟩ := CmdPacket.ofPacket_eq_ok.mpr (hfit msg rfl)
    refine .packetReceived ?_
    simp [CmdClient.packetReceived_eq hp hr, CmdClient.handlePacket, hf, ht, hst]
  | @replied msg rest data h st evt e hr hf ht hst hevt hlook hptr hd =>
    obtain ⟨p, hp⟩ := CmdPacket.ofPacket_eq_ok.mpr (hfit msg rfl)
    refine .packetReceived ?_
    have hcancel := CmdClient.cancelTimeout_eq_ok.mpr ⟨evt, e, hevt, hlook, hptr, rfl⟩
    simp only [CmdClient.packetReceived_eq hp hr, CmdClient.handlePacket, hf, ht, hst, ne_eq,
      not_true_eq_false, if_false, if_true, hcancel, bind, Except.bind]
    cases hcb : st.replyCallback with
    | none =>
      simp [CmdClient.replyData, CmdClient.invoke, hcb, CmdClient.complete, pure, Except.pure]
    | some cb =>
      have hpay := (CmdPacket.payload_ofPacket hp hr).mpr (hd (by simp [hcb]))
      simp [CmdClient.replyData, hcb, hpay, CmdClient.complete, pure, Except.pure]
  | failed hl hcb hfd hf hmax =>
    refine .timer hl hcb hfd ?_
    simp only [CmdClient.timerFired, CmdClient.retryOperation, hf, hmax, if_true]
    rfl
  | @retried evt seqid fd st hl hcb hfd hf hmax hlen =>
    refine .timer hl hcb hfd ?_
    have hsend : c.sendQuery seqid { st with retriesCount := st.retriesCount + 1 } fd = _ :=
      CmdClient.sendQuery_eq hlen
    simp only [CmdClient.timerFired, CmdClient.retryOperation, hf, Nat.not_le_of_lt hmax, if_false,
      hsend]
    rfl

end Pc2Drc
