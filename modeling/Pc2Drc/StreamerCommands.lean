import Pc2Drc.CmdProtocolHistory
import Pc2Drc.GenericCmdPacket

/-! The streamer's generic commands: a packet inside a packet, sent and sent again by the client. -/
namespace Pc2Drc
open Lib

variable {κ : Type}

abbrev kQueryFlag : UInt8 := 0x40

/-- The packet that both functions build. The setters cut the ids to a byte. -/
def genericQuery (service method : ℤ) (msg : List UInt8) : Except Fault GenericCmdPacket :=
  let pkt := GenericCmdPacket.resetPacket.setFlags kQueryFlag
  let pkt := pkt.setServiceId (UInt8.ofInt service)
  let pkt := pkt.setMethodId (UInt8.ofInt method)
  pkt.setPayload msg

namespace CmdClient

/-- The part of `Query` before it waits: `wake` stands for its callback, which stores the reply
and ends the wait. -/
def query (c : CmdClient κ) (qtype : CmdQueryType) (payload : List UInt8) (wake : κ) (fd : Fd) :
    Except Fault (CmdClient κ × List (CmdOutput κ)) :=
  c.asyncQuery qtype payload (some wake) fd

def runGenericCmd (c : CmdClient κ) (service method : ℤ) (msg : List UInt8) (wake : κ) (fd : Fd) :
    Except Fault (CmdClient κ × List (CmdOutput κ)) := do
  let pkt ← genericQuery service method msg
  c.query .kGenericCommand pkt.getBytes wake fd

def runGenericAsyncCmd (c : CmdClient κ) (service method : ℤ) (msg : List UInt8) (cb : Option κ)
    (fd : Fd) : Except Fault (CmdClient κ × List (CmdOutput κ)) := do
  let pkt ← genericQuery service method msg
  c.asyncQuery .kGenericCommand pkt.getBytes cb fd

end CmdClient

/-- What the documented headers must read in a datagram that carries a command. The fragment
number is 0 and the bit above it marks the final fragment. -/
structure CarriesCommand (seqid : UInt16) (service method : ℤ) (msg bytes : List UInt8) :
    Prop where
  length_eq : bytes.length = 8 + 12 + msg.length
  read_eq : ∃ (body : List UInt8) (sid mid : UInt8), (sid.toNat : ℤ) = service ∧
    (mid.toNat : ℤ) = method ∧
    CmdHeader.read bytes = some (⟨0, 0, bytes.length - 8, seqid.toNat⟩, body) ∧
    GenericCommand.read body = some {
      magic := 0x7E, version := 1, transactionId := 0, fragmentId := 2 ^ 11 + 0, flags := 0x40,
      serviceId := sid, methodId := mid, errorCode := 0, payload := msg }

/-- Whatever is in flight for query `q` is what `q` was issued with. -/
structure Stores (q : ℕ) (qtype : CmdQueryType) (payload : List UInt8) (c : CmdClient κ) :
    Prop where
  issued : q < c.issued
  entry : ∀ seqid st, c.findState seqid = some st → st.query = q →
    st.queryType = qtype ∧ st.queryPayload = payload

variable {c c' c'' : CmdClient κ} {a : CmdAction κ} {out : List (CmdOutput κ)}
  {tr tr' : CmdTrace κ} {q : ℕ} {qtype : CmdQueryType} {payload msg bytes : List UInt8}
  {service method : ℤ} {stopFd fd : Fd}

theorem Stores.complete (h : Stores q qtype payload c) (seqid₀ : UInt16) (evt : Event CmdEvent) :
    Stores q qtype payload (c.complete seqid₀ evt) := by
  refine ⟨h.issued, ?_⟩
  intro seqid st hs hq
  have hne : seqid ≠ seqid₀ := by
    rintro rfl
    simp at hs
  rw [CmdClient.findState_complete_ne hne] at hs
  exact h.entry seqid st hs hq

/-- An entry may be written again with the same query in it. -/
theorem Stores.rewritten {seqid₀ : UInt16} {st₀ st₁ : CmdState κ} (h : Stores q qtype payload c)
    (hissued : c'.issued = c.issued) (hf : c.findState seqid₀ = some st₀)
    (hself : c'.findState seqid₀ = some st₁)
    (hothers : ∀ seqid, seqid ≠ seqid₀ → c'.findState seqid = c.findState seqid)
    (hquery : st₁.query = st₀.query) (htype : st₁.queryType = st₀.queryType)
    (hpayload : st₁.queryPayload = st₀.queryPayload) : Stores q qtype payload c' := by
  refine ⟨hissued ▸ h.issued, ?_⟩
  intro seqid st hs hq
  by_cases hne : seqid = seqid₀
  · subst hne
    cases hself.symm.trans hs
    rw [htype, hpayload]
    exact h.entry seqid st₀ hf (hquery.symm.trans hq)
  · rw [hothers seqid hne] at hs
    exact h.entry seqid st hs hq

theorem Stores.step (h : Stores q qtype payload c) (he : CmdEffect c a out c') :
    Stores q qtype payload c' := by
  cases he with
  | @issued qtype' payload' cb fd hfd hnone hlen =>
    refine ⟨Nat.lt_succ_of_lt h.issued, ?_⟩
    intro seqid st hs hq
    by_cases hne : seqid = c.seqid
    · subst hne
      cases (CmdClient.findState_sentClient_self).symm.trans hs
      exact absurd hq h.issued.ne'
    · rw [CmdClient.findState_sentClient_ne hne] at hs
      exact h.entry seqid st hs hq
  | ignored => exact h
  | acked hr hf ht hst =>
    exact h.rewritten rfl hf CmdClient.findState_storeState_self
      (fun seqid hne => CmdClient.findState_storeState_ne hne) rfl rfl rfl
  | replied => exact h.complete _ _
  | failed => exact h.complete _ _
  | retried hl hcb hfd hf =>
    exact h.rewritten rfl hf CmdClient.findState_sentClient_self
      (fun seqid hne => CmdClient.findState_sentClient_ne hne) rfl rfl rfl

/-- A retransmission is built from the stored entry. -/
theorem Stores.sent (h : Stores q qtype payload c) (hi : CmdInv c) (he : CmdEffect c a out c')
    (hmem : .query q bytes ∈ out) : bytes = cmdDatagram 0 qtype.toU16 q.toUInt16 payload := by
  obtain ⟨hlt, hentry⟩ := h
  rcases he.query_cases hmem with ⟨-, -, hq, -⟩ | ⟨seqid, st, hf, rfl, -, -, rfl⟩
  · omega
  · obtain ⟨htype, hpayload⟩ := hentry seqid st hf rfl
    rw [CmdClient.queryDatagram, htype, hpayload, (hi.entry seqid st hf).seqid_eq]

/-- Every later transmission of a query is the datagram of what it was issued with. -/
theorem Stores.run (h : Stores q qtype payload c) (hi : CmdInv c)
    (hrun : Steps CmdStep c tr c') : ∀ bytes, .query q bytes ∈ outputs tr →
      bytes = cmdDatagram 0 qtype.toU16 q.toUInt16 payload := by
  have hall : CmdInv c' ∧ Stores q qtype payload c' ∧ ∀ bytes, .query q bytes ∈ outputs tr →
      bytes = cmdDatagram 0 qtype.toU16 q.toUInt16 payload := by
    refine hrun.invariant (P := fun tr c => CmdInv c ∧ Stores q qtype payload c ∧
      ∀ bytes, .query q bytes ∈ outputs tr →
        bytes = cmdDatagram 0 qtype.toU16 q.toUInt16 payload) ⟨hi, h, by simp [outputs]⟩ ?_
    rintro tr c a out c' ⟨hi, hstores, hsent⟩ hs
    refine ⟨cmdInv_step hi hs, hstores.step hs.effect, ?_⟩
    intro bytes hmem
    rw [outputs_snoc] at hmem
    rcases List.mem_append.mp hmem with hmem | hmem
    · exact hsent bytes hmem
    · exact hstores.sent hi hs.effect hmem
  exact hall.2.2

/-- A fresh query stores what it was issued with. -/
theorem stores_asyncQuery (hi : CmdInv c) {cb : Option κ}
    (h : c.asyncQuery qtype payload cb fd = .ok (c', out)) :
    Stores c.issued qtype payload c' := by
  obtain ⟨-, -, rfl, -⟩ := CmdClient.asyncQuery_eq_ok.mp h
  refine ⟨Nat.lt_succ_self _, ?_⟩
  intro seqid st hs hq
  by_cases hne : seqid = c.seqid
  · subst hne
    cases (CmdClient.findState_sentClient_self).symm.trans hs
    exact ⟨rfl, rfl⟩
  · rw [CmdClient.findState_sentClient_ne hne] at hs
    have hlt : st.query < c.issued := (hi.entry seqid st hs).query_lt
    omega

theorem toNat_ofInt_byte {n : ℤ} (h : 0 ≤ n) (h' : n ≤ 255) :
    ((UInt8.ofInt n).toNat : ℤ) = n := by
  have hmod : n % 256 = n := Int.emod_eq_of_lt h (by omega)
  rw [UInt8.ofInt, UInt8.toNat_ofNat']
  change ((n % 256).toNat % 256 : ℕ) = n
  omega

/-- The calls of the setters, as the packet's own results name them. -/
theorem genericQuery_eq (service method : ℤ) (msg : List UInt8) :
    genericQuery service method msg = genericAfter [.setFlags kQueryFlag,
      .setServiceId (UInt8.ofInt service), .setMethodId (UInt8.ofInt method), .setPayload msg] := by
  simp only [genericAfter, List.foldlM, GenericCall.apply, bind, Except.bind, pure, Except.pure]
  unfold genericQuery
  split <;> assumption

theorem genericQuery_ok (service method : ℤ) (hmsg : msg.length ≤ kMaxGenericCmdPayloadSize) :
    ∃ p, genericQuery service method msg = .ok p ∧ p.getBytes.length = 12 + msg.length ∧
      GenericCommand.read p.getBytes = some {
        magic := 0x7E, version := 1, transactionId := 0, fragmentId := 2 ^ 11 + 0, flags := 0x40,
        serviceId := UInt8.ofInt service, methodId := UInt8.ofInt method, errorCode := 0,
        payload := msg } := by
  have hallowed : ∀ call ∈ [GenericCall.setFlags kQueryFlag, .setServiceId (UInt8.ofInt service),
      .setMethodId (UInt8.ofInt method), .setPayload msg], call.Allowed := by
    simpa [GenericCall.Allowed] using hmsg
  obtain ⟨p, hp, hlaid⟩ := genericAfter_laid hallowed
  refine ⟨p, (genericQuery_eq service method msg).trans hp, ?_, hlaid.read.trans ?_⟩
  · rw [GenericCmdPacket.getBytes, hlaid.payloadSize, List.length_take, p.pkt.length_bytes]
    change min (12 + msg.length) 1400 = 12 + msg.length
    simp only [kMaxGenericCmdPayloadSize] at hmsg
    omega
  · simp [genericFields, GenericCall.record, GenericFields.reset, GenericFields.command,
      finalMark, GenericCall.finalAfter]

/-- The nested packet fits the outer one, and the outer header leaves it as it is. -/
theorem carriesCommand_datagram {p : GenericCmdPacket} (seqid : UInt16)
    (hservice : 0 ≤ service ∧ service ≤ 255) (hmethod : 0 ≤ method ∧ method ≤ 255)
    (hmsg : msg.length ≤ kMaxGenericCmdPayloadSize) (hp : genericQuery service method msg = .ok p) :
    CarriesCommand seqid service method msg (cmdDatagram 0 0 seqid p.getBytes) := by
  obtain ⟨p', hp', hlen, hread⟩ := genericQuery_ok service method hmsg
  cases hp.symm.trans hp'
  have hlength : (cmdDatagram 0 0 seqid p.getBytes).length = 8 + p.getBytes.length := by
    rw [cmdDatagram, List.length_append]
    rfl
  simp only [kMaxGenericCmdPayloadSize] at hmsg
  refine ⟨by omega, p.getBytes, UInt8.ofInt service, UInt8.ofInt method,
    toNat_ofInt_byte hservice.1 hservice.2, toNat_ofInt_byte hmethod.1 hmethod.2, ?_, hread⟩
  rw [CmdHeader.read_cmdDatagram (by omega), hlength, Nat.add_sub_cancel_left]
  rfl

/-- A command issued in any reachable state is sent, and all its transmissions carry it. -/
theorem runGenericAsyncCmd_carries (hrun : CmdRun stopFd tr c) (hfd : fd ∉ c.em.events)
    (hfree : c.findState c.seqid = none) (hservice : 0 ≤ service ∧ service ≤ 255)
    (hmethod : 0 ≤ method ∧ method ≤ 255) (hmsg : msg.length ≤ kMaxGenericCmdPayloadSize)
    (cb : Option κ) : ∃ c' bytes, c.runGenericAsyncCmd service method msg cb fd =
        .ok (c', [.query c.issued bytes]) ∧
      ∀ tr' c'', Steps CmdStep c' tr' c'' →
        ∀ b, .query c.issued b ∈ .query c.issued bytes :: outputs tr' →
          CarriesCommand c.seqid service method msg b := by
  have hi := cmdInv_run hrun
  obtain ⟨p, hp, hlen, -⟩ := genericQuery_ok service method hmsg
  have hfit : p.getBytes.length ≤ kMaxCmdPayloadSize := by
    simp only [kMaxGenericCmdPayloadSize, kMaxCmdPayloadSize] at hmsg ⊢
    omega
  have hcall : c.asyncQuery .kGenericCommand p.getBytes cb fd = .ok (_, _) :=
    CmdClient.asyncQuery_eq_ok.mpr ⟨hfree, hfit, rfl, rfl⟩
  have hcmd : c.runGenericAsyncCmd service method msg cb fd =
      c.asyncQuery .kGenericCommand p.getBytes cb fd := by
    rw [CmdClient.runGenericAsyncCmd, hp]
    rfl
  refine ⟨_, _, hcmd.trans hcall, ?_⟩
  intro tr' c'' hrest b hb
  have hcarries := carriesCommand_datagram c.seqid hservice hmethod hmsg hp
  have hi' := cmdInv_step hi (.asyncQuery hfd hcall)
  rcases List.mem_cons.mp hb with hb | hb
  · cases hb
    exact hcarries
  · rw [(stores_asyncQuery hi hcall).run hi' hrest b hb, ← hi.seqid_eq]
    exact hcarries

/-- Both functions issue the query, whose first transmission and retransmissions carry the
command. `AsyncQuery` asserts that the sequence id is free. -/
theorem generic_command_survives (hrun : CmdRun stopFd tr c) (hfd : fd ∉ c.em.events)
    (hfree : c.findState c.seqid = none) (hservice : 0 ≤ service ∧ service ≤ 255)
    (hmethod : 0 ≤ method ∧ method ≤ 255) (hmsg : msg.length ≤ 1388) (wake : κ) (cb : Option κ) :
    ∀ call ∈ [c.runGenericCmd service method msg wake fd,
        c.runGenericAsyncCmd service method msg cb fd],
      ∃ c' bytes, call = .ok (c', [.query c.issued bytes]) ∧
        ∀ tr' c'', Steps CmdStep c' tr' c'' →
          ∀ b, .query c.issued b ∈ .query c.issued bytes :: outputs tr' →
            CarriesCommand c.seqid service method msg b := by
  intro call hcall
  rcases List.mem_pair.mp hcall with rfl | rfl
  · exact runGenericAsyncCmd_carries hrun hfd hfree hservice hmethod hmsg (some wake)
  · exact runGenericAsyncCmd_carries hrun hfd hfree hservice hmethod hmsg cb

/-- The theorem at the request for the controller's configuration, sent by a new client. -/
theorem generic_command_survives_request :
    ∃ c' bytes, (CmdClient.create 0 : CmdClient ℕ).runGenericCmd 5 6 [0, 0, 0] 7 1 =
        .ok (c', [.query 0 bytes]) ∧
      ∀ tr' c'', Steps CmdStep c' tr' c'' → ∀ b, .query 0 b ∈ .query 0 bytes :: outputs tr' →
        CarriesCommand 0 5 6 [0, 0, 0] b :=
  generic_command_survives (show CmdRun 0 [] (CmdClient.create 0) from .refl) (by decide) rfl
    (by decide) (by decide) (by decide) 7 none _ List.mem_cons_self

end Pc2Drc
