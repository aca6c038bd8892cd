import Pc2Drc.CmdConsumers
import Pc2Drc.CmdProtocolCompletion

/-! The command receive path on arbitrary datagrams: which of them are handled inside the bytes
that were received. -/
namespace Pc2Drc
open Lib

variable {c c' : CmdClient Consumer} {out : List (CmdOutput Consumer)} {stopFd : Fd}
  {tr : CmdTrace Consumer} {msg rest : List UInt8} {h : CmdHeader}

/-- An incomplete header, or a payload size larger than the payload received. -/
def Malformed (msg : List UInt8) : Prop :=
  ∀ h rest, CmdHeader.read msg = some (h, rest) → rest.length < h.payloadSize

/-- Receiving a datagram faults nowhere, ignores it if it is malformed, hands its payload and
nothing else to a callback, and the consumer behind the callback stays inside that payload. -/
structure ReceivesInside (c : CmdClient Consumer) (msg : List UInt8) : Prop where
  inside : ∃ c' out, c.packetReceived msg = .ok (c', out)
  ignored : Malformed msg → c.packetReceived msg = .ok (c, [])
  data : ∀ c' out q k success data, c.packetReceived msg = .ok (c', out) →
    .replyCallback q k success data ∈ out → ∃ h rest, CmdHeader.read msg = some (h, rest) ∧
      kCmdHeaderSize + h.payloadSize ≤ msg.length ∧
      data = (msg.drop kCmdHeaderSize).take h.payloadSize
  consumed : ∀ c' out q k success data, c.packetReceived msg = .ok (c', out) →
    .replyCallback q k success data ∈ out → k.ReadsInside success data

/-- The datagram fits the buffer and has a whole header; it carries the payload it announces or
is one the client drops; and a reply that completes a synchronisation has fifteen bytes. -/
def HandledInside (c : CmdClient Consumer) (msg : List UInt8) : Prop :=
  msg.length ≤ kCmdHeaderSize + kMaxCmdPayloadSize ∧
  ∃ h rest, CmdHeader.read msg = some (h, rest) ∧
    (h.payloadSize ≤ rest.length ∨
      h.type ≠ .kReply ∧ ∀ st, c.findState h.seqid = some st → h.type ≠ st.state) ∧
    (h.type = .kReply → ∀ st, c.findState h.seqid = some st → st.state = .kReply →
      st.replyCallback = some .uvcUac → 15 ≤ h.payloadSize)

theorem ReceivesInside.header (hs : ReceivesInside c msg) :
    msg.length ≤ kCmdHeaderSize + kMaxCmdPayloadSize ∧
      ∃ h rest, CmdHeader.read msg = some (h, rest) := by
  obtain ⟨c', out, hrec⟩ := hs.inside
  obtain ⟨p, h, rest, hp, hr⟩ := CmdClient.packetReceived_header hrec
  exact ⟨CmdPacket.ofPacket_eq_ok.mp ⟨p, hp⟩, h, rest, hr⟩

/-- A malformed datagram is ignored exactly when it is no reply and meets no entry that waits for
its type. -/
theorem CmdInv.ignored_iff (hi : CmdInv c)
    (hlen : msg.length ≤ kCmdHeaderSize + kMaxCmdPayloadSize)
    (hr : CmdHeader.read msg = some (h, rest)) : c.packetReceived msg = .ok (c, []) ↔
      h.type ≠ .kReply ∧ ∀ st, c.findState h.seqid = some st → h.type ≠ st.state := by
  obtain ⟨p, hp⟩ := CmdPacket.ofPacket_eq_ok.mpr hlen
  constructor
  · intro hrec
    have hne : h.type ≠ .kReply := by
      intro ht
      have hmem := (CmdStep.packetReceived hrec).replyAck_mem hr ht
      simp at hmem
    refine ⟨hne, ?_⟩
    intro st hf heq
    rcases (hi.entry _ _ hf).state_eq with hst | hst
    · rw [CmdClient.packetReceived_eq hp hr] at hrec
      simp [CmdClient.handlePacket, hf, heq, hst] at hrec
      have hf' := congrArg (fun c => CmdClient.findState c h.seqid) hrec.1
      rw [CmdClient.findState_storeState_self, hf] at hf'
      have hst' := congrArg CmdState.state (Option.some.inj hf')
      rw [hst] at hst'
      cases hst'
    · exact hne (heq.trans hst)
  · rintro ⟨hne, hno⟩
    rw [CmdClient.packetReceived_eq hp hr, CmdClient.handlePacket, CmdClient.replyAckOf,
      if_neg hne]
    cases hf : c.findState h.seqid with
    | none => rfl
    | some st => simp [hno st hf]

theorem ReceivesInside.handled (hi : CmdInv c) (hs : ReceivesInside c msg) :
    HandledInside c msg := by
  obtain ⟨hlen, h, rest, hr⟩ := hs.header
  refine ⟨hlen, h, rest, hr, ?_, ?_⟩
  · by_cases hsize : h.payloadSize ≤ rest.length
    · exact Or.inl hsize
    · refine Or.inr ((hi.ignored_iff hlen hr).mp (hs.ignored ?_))
      intro h' rest' hr'
      cases hr.symm.trans hr'
      omega
  · intro ht st hf hst hcb
    obtain ⟨c', out, hrec⟩ := hs.inside
    obtain ⟨hsize, hmem⟩ := (CmdStep.packetReceived hrec).delivered_of_reply hr ht hf hst hcb
    have hread := Consumer.readsInside_iff.mp (hs.consumed _ _ _ _ _ _ hrec hmem) rfl
    rw [List.length_take] at hread
    omega

/-- A callback gets the announced payload, all of which was received. -/
theorem CmdStep.callback_data {q : ℕ} {k : Consumer} {success : Bool} {data : List UInt8}
    (hs : CmdStep c (.packetReceived msg) out c') (hr : CmdHeader.read msg = some (h, rest))
    (hmem : .replyCallback q k success data ∈ out) :
    success = true ∧ h.payloadSize ≤ rest.length ∧ data = rest.take h.payloadSize ∧
      h.type = .kReply ∧ ∃ st, c.findState h.seqid = some st ∧ st.state = .kReply ∧
        st.replyCallback = some k := by
  rcases hs.effect.callback hmem with
    ⟨rfl, msg', h', rest', st, ha, hr', ht, hf, -, hst, hk, hle, hdata⟩ | ⟨-, -, evt, fd, ha⟩
  · cases ha
    cases hr.symm.trans hr'
    exact ⟨rfl, hle, hdata, ht, st, hf, hst, hk⟩
  · cases ha

theorem HandledInside.receives (hi : CmdInv c) (hh : HandledInside c msg) :
    ReceivesInside c msg := by
  obtain ⟨hlen, h, rest, hr, hsize, hsync⟩ := hh
  have hmsg := CmdHeader.drop_of_read hr
  refine ⟨?_, ?_, ?_, ?_⟩
  · rcases hsize with hsize | hno
    · obtain ⟨out, c', hs⟩ := hi.receives ⟨hlen, h, rest, hr, hsize⟩
      cases hs with
      | packetReceived hrec => exact ⟨c', out, hrec⟩
    · exact ⟨c, [], (hi.ignored_iff hlen hr).mpr hno⟩
  · intro hmal
    rcases hsize with hsize | hno
    · have := hmal h rest hr
      omega
    · exact (hi.ignored_iff hlen hr).mpr hno
  · intro c' out q k success data hrec hmem
    obtain ⟨-, hle, rfl, -⟩ := (CmdStep.packetReceived hrec).callback_data hr hmem
    exact ⟨h, rest, hr, by omega, by rw [hmsg.1]⟩
  · intro c' out q k success data hrec hmem
    obtain ⟨rfl, hle, rfl, ht, st, hf, hst, hk⟩ :=
      (CmdStep.packetReceived hrec).callback_data hr hmem
    refine Consumer.readsInside_iff.mpr ?_
    rintro rfl
    have := hsync ht st hf hst hk
    rw [List.length_take]
    omega

/-- From every reachable state, a datagram of any length is handled inside what was received
exactly when it passes the checks the client leaves out. -/
theorem receivesInside_iff (hrun : CmdRun stopFd tr c) :
    ReceivesInside c msg ↔ HandledInside c msg :=
  ⟨fun hs => hs.handled (cmdInv_run hrun), fun hh => hh.receives (cmdInv_run hrun)⟩

/-- The theorem at a reply of fifteen bytes to an acknowledged synchronisation. -/
theorem receivesInside_sync : ∃ (tr : CmdTrace Consumer) (c : CmdClient Consumer), CmdRun 3 tr c ∧
    ReceivesInside c (cmdDatagram 2 1 0 (List.replicate 15 0)) := by
  have hrun : CmdRun 3 _ _ := (Steps.single (firstQuery_step (some Consumer.uvcUac))).snoc
    (firstAcked_step (some Consumer.uvcUac))
  have hr : CmdHeader.read (cmdDatagram 2 1 0 (List.replicate 15 0)) =
      some (⟨2, 1, 15, 0⟩, List.replicate 15 0) := CmdHeader.read_cmdDatagram (by decide)
  refine ⟨_, _, hrun, (receivesInside_iff hrun).mpr ⟨by decide, _, _, hr, Or.inl (by decide), ?_⟩⟩
  intro _ _ _ _ _
  decide

/-- A datagram one byte longer than the packet buffer is copied over its end. -/
theorem receives_outside : ¬ ∀ (tr : CmdTrace Consumer) (c : CmdClient Consumer)
    (msg : List UInt8), CmdRun 3 tr c → msg.length ≤ 2000 → ReceivesInside c msg := by
  intro hall
  have hlen : (List.replicate 1409 (0 : UInt8)).length = 1409 := List.length_replicate
  have hfit := (hall [] _ _ .refl (hlen.trans_le (by decide))).header.1
  rw [hlen] at hfit
  exact absurd hfit (by decide)

end Pc2Drc
