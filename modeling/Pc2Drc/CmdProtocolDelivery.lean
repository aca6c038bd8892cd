import Pc2Drc.CmdProtocolCompletion

/-! Which acknowledged replies reach their query's callback. -/
namespace Pc2Drc
open Lib

variable {κ : Type} {c c' : CmdClient κ} {out : List (CmdOutput κ)} {st : CmdState κ}
  {stopFd : Fd} {tr : CmdTrace κ} {cb : κ} {msg rest : List UInt8} {h : CmdHeader}

/-- The datagram is a reply with the id and type of a query in flight that has a callback. -/
def RepliesTo (c : CmdClient κ) (msg : List UInt8) (st : CmdState κ) (cb : κ)
    (data : List UInt8) : Prop :=
  ∃ h rest, CmdHeader.read msg = some (h, rest) ∧ h.type = .kReply ∧
    c.findState h.seqid = some st ∧ h.qtype = st.queryType ∧ st.replyCallback = some cb ∧
    data = rest.take h.payloadSize

/-- A reply to a query in flight that is acknowledged in a step is delivered in that step. -/
def AckedIsDelivered (c : CmdClient κ) (msg : List UInt8) (out : List (CmdOutput κ)) : Prop :=
  ∀ st cb data, RepliesTo c msg st cb data → (∃ bytes, .replyAck bytes ∈ out) →
    .replyCallback st.query cb true data ∈ out

/-- The entry decides: a reply is delivered exactly when its query waits for one. -/
theorem CmdStep.delivered_iff {data : List UInt8} (hi : CmdInv c)
    (hs : CmdStep c (.packetReceived msg) out c') (hto : RepliesTo c msg st cb data) :
    .replyCallback st.query cb true data ∈ out ↔ st.state = .kReply := by
  obtain ⟨h, rest, hr, ht, hf, -, hcb, rfl⟩ := hto
  constructor
  · intro hmem
    obtain ⟨-, st', hf', -, hst, -⟩ := hs.effect.success hi hmem
    rw [← (hi.entry _ _ hf).seqid_eq] at hf'
    cases hf.symm.trans hf'
    exact hst
  · intro hst
    exact (hs.delivered_of_reply hr ht hf hst hcb).2

/-- An acknowledged reply is delivered exactly when an acknowledgement of its query came in after
the query's latest transmission; one that overtakes it is acknowledged and dropped. -/
theorem acked_reply_delivered_iff (hrun : CmdRun stopFd tr c)
    (hs : CmdStep c (.packetReceived msg) out c') : AckedIsDelivered c msg out ↔
      ∀ st cb data, RepliesTo c msg st cb data → AckedSinceSent st.query tr := by
  have hi := cmdInv_run hrun
  have hacked : ∀ st cb data, RepliesTo c msg st cb data →
      (st.state = .kReply ↔ AckedSinceSent st.query tr) := by
    rintro st cb data ⟨h, rest, -, -, hf, -⟩
    exact ((histInv_run hrun).entry _ _ hf).acked_iff
  constructor
  · intro hdel st cb data hto
    obtain ⟨h, rest, hr, ht, -⟩ := id hto
    have hmem := hdel st cb data hto ⟨_, hs.replyAck_mem hr ht⟩
    exact (hacked st cb data hto).mp ((hs.delivered_iff hi hto).mp hmem)
  · intro hack st cb data hto _
    exact (hs.delivered_iff hi hto).mpr ((hacked st cb data hto).mpr (hack st cb data hto))

/-- The theorem at a reply that comes after its query's acknowledgement. -/
theorem acked_reply_delivered_exchange : ∃ (tr : CmdTrace ℕ) (c c' : CmdClient ℕ)
    (out : List (CmdOutput ℕ)), CmdRun 3 tr c ∧
    CmdStep c (.packetReceived (cmdDatagram 2 1 0 [1, 2])) out c' ∧
    (AckedIsDelivered c (cmdDatagram 2 1 0 [1, 2]) out ↔ ∀ st cb data,
      RepliesTo c (cmdDatagram 2 1 0 [1, 2]) st cb data → AckedSinceSent st.query tr) := by
  have hlen : ([1, 2] : List UInt8).length ≤ kMaxCmdPayloadSize := by decide
  have hrun : CmdRun 3 _ _ := (Steps.single (firstQuery_step (some 7))).snoc
    (firstAcked_step (some 7))
  have hs := firstReply_step 7 hlen
  exact ⟨_, _, _, _, hrun, hs, acked_reply_delivered_iff hrun hs⟩

/-- A reply that arrives before the acknowledgement of its query, both sent in order and
reordered by the network, is acknowledged but not delivered. -/
theorem acked_reply_lost : ¬ ∀ (tr : CmdTrace ℕ) (c c' : CmdClient ℕ) (msg : List UInt8)
    (out : List (CmdOutput ℕ)), CmdRun 3 tr c → CmdStep c (.packetReceived msg) out c' →
    AckedIsDelivered c msg out := by
  intro hall
  have hrun : CmdRun 3 _ _ := Steps.single (firstQuery_step (some 7))
  have hr : CmdHeader.read (cmdDatagram 2 1 0 [5]) = some (⟨2, 1, 1, 0⟩, [5]) :=
    CmdHeader.read_cmdDatagram (by decide)
  have hf : (firstQuery (some 7)).findState (0 : UInt16) = some _ :=
    CmdClient.findState_sentClient_self
  have hs := CmdEffect.step (CmdEffect.ignored hr (by
    intro st hst heq
    cases hf.symm.trans hst
    cases heq)) (by
    intro msg hmsg
    cases hmsg
    decide)
  have hmem := hall _ _ _ _ _ hrun hs _ 7 [5] ⟨_, _, hr, rfl, hf, rfl, rfl, rfl⟩
    ⟨_, hs.replyAck_mem hr rfl⟩
  obtain ⟨bytes, ho⟩ := mem_replyAckOf hmem
  cases ho

end Pc2Drc
