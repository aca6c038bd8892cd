import Pc2Drc.CmdProtocolCompletion

/-! The command client together with a pad over an unreliable network. A datagram carries the
number of the query it belongs to; neither party sees that number. -/
namespace Pc2Drc
open Lib

variable {κ : Type}

/-- The client and every datagram ever put on the network in each direction. -/
structure PadNet (κ : Type) where
  client : CmdClient κ
  toPad : List (ℕ × List UInt8)
  toClient : List (ℕ × List UInt8)

def PadNet.create (stopFd : Fd) : PadNet κ :=
  { client := .create stopFd, toPad := [], toClient := [] }

inductive PadAction (κ : Type)
  | client (a : CmdAction κ)
  | answer (q : ℕ) (bytes : List UInt8) (type : CmdPacketType) (payload : List UInt8)
  | deliver (q : ℕ) (msg : List UInt8)

/-- The Query datagrams among what a step shows. -/
def queriesSent (out : List (CmdOutput κ)) : List (ℕ × List UInt8) :=
  out.filterMap fun o => match o with
    | .query q bytes => some (q, bytes)
    | _ => none

/-- Nothing put on the network is taken off it: a datagram is delivered any number of times, in
any order, or never. Only the last 65536 queries may still be answered. -/
inductive PadStep : PadNet κ → PadAction κ → List (CmdOutput κ) → PadNet κ → Prop
  | client {n : PadNet κ} {a : CmdAction κ} {out : List (CmdOutput κ)} {c' : CmdClient κ} :
      (∀ msg, a ≠ .packetReceived msg) → CmdStep n.client a out c' →
      PadStep n (.client a) out { n with client := c', toPad := n.toPad ++ queriesSent out }
  | answer {n : PadNet κ} {q : ℕ} {bytes rest payload : List UInt8} {h : CmdHeader}
      {type : CmdPacketType} :
      (q, bytes) ∈ n.toPad → CmdHeader.read bytes = some (h, rest) →
      type = .kQueryAck ∨ type = .kReply → payload.length ≤ kMaxCmdPayloadSize →
      PadStep n (.answer q bytes type payload) []
        { n with toClient :=
            n.toClient ++ [(q, cmdDatagram type.toU16 h.qtype.toU16 h.seqid payload)] }
  | deliver {n : PadNet κ} {q : ℕ} {msg : List UInt8} {out : List (CmdOutput κ)}
      {c' : CmdClient κ} :
      (q, msg) ∈ n.toClient → n.client.issued ≤ q + 65536 →
      CmdStep n.client (.packetReceived msg) out c' →
      PadStep n (.deliver q msg) out { n with client := c' }

abbrev PadTrace (κ : Type) := List (PadAction κ × List (CmdOutput κ))

variable {n n' : PadNet κ} {tr pre post : PadTrace κ} {a : PadAction κ} {c c' : CmdClient κ}
  {out : List (CmdOutput κ)} {q : ℕ} {cb : κ} {data : List UInt8}

/-- The pad has answered the query with a payload. -/
def Answered (tr : PadTrace κ) (q : ℕ) (payload : List UInt8) : Prop :=
  ∃ bytes o, (.answer q bytes .kReply payload, o) ∈ tr

/-- Every datagram names its query by the query's id, and a reply is one the pad gave. -/
structure PadInv (tr : PadTrace κ) (n : PadNet κ) : Prop where
  client : CmdInv n.client
  toPad : ∀ x ∈ n.toPad, x.1 < n.client.issued ∧ ∃ qtype payload,
    payload.length ≤ kMaxCmdPayloadSize ∧ x.2 = cmdDatagram 0 qtype x.1.toUInt16 payload
  toClient : ∀ x ∈ n.toClient, x.1 < n.client.issued ∧ ∃ type qtype payload,
    payload.length ≤ kMaxCmdPayloadSize ∧
    x.2 = cmdDatagram (CmdPacketType.toU16 type) qtype x.1.toUInt16 payload ∧
    (type = .kReply → Answered tr x.1 payload) ∧ (type = .kQueryAck ∨ type = .kReply)

theorem padInv_create (stopFd : Fd) : PadInv [] (PadNet.create stopFd : PadNet κ) where
  client := cmdInv_create stopFd
  toPad := by simp [PadNet.create]
  toClient := by simp [PadNet.create]

theorem Answered.snoc {x : PadAction κ × List (CmdOutput κ)} (h : Answered tr q data) :
    Answered (tr ++ [x]) q data := by
  obtain ⟨bytes, o, hmem⟩ := h
  exact ⟨bytes, o, List.mem_append_left _ hmem⟩

theorem read_datagram {type qtype seqid : UInt16} {payload : List UInt8}
    (h : payload.length ≤ kMaxCmdPayloadSize) :
    CmdHeader.read (cmdDatagram type qtype seqid payload) =
      some (⟨type.toNat, qtype.toNat, payload.length, seqid.toNat⟩, payload) :=
  CmdHeader.read_cmdDatagram (Nat.lt_of_le_of_lt h (by decide))

theorem seqid_of_read {type qtype seqid : UInt16} {payload rest : List UInt8} {h : CmdHeader}
    (hlen : payload.length ≤ kMaxCmdPayloadSize)
    (hr : CmdHeader.read (cmdDatagram type qtype seqid payload) = some (h, rest)) :
    h.seqid = seqid := by
  rw [read_datagram hlen] at hr
  cases hr
  exact UInt16.ofNat_toNat

theorem mem_queriesSent {x : ℕ × List UInt8} : x ∈ queriesSent out ↔ .query x.1 x.2 ∈ out := by
  constructor
  · intro hx
    obtain ⟨o, hmem, ho⟩ := List.mem_filterMap.mp hx
    cases o with
    | query q bytes =>
      cases ho
      exact hmem
    | _ => cases ho
  · intro hmem
    exact List.mem_filterMap.mpr ⟨_, hmem, rfl⟩

/-- Every Query datagram sent is that of an issued query, under the query's id. -/
theorem CmdEffect.queriesSent {a : CmdAction κ} (he : CmdEffect c a out c') (hi : CmdInv c) :
    ∀ x ∈ queriesSent out, x.1 < c'.issued ∧ ∃ qtype payload,
      payload.length ≤ kMaxCmdPayloadSize ∧ x.2 = cmdDatagram 0 qtype x.1.toUInt16 payload := by
  rintro ⟨q, bytes⟩ hx
  rcases he.query_cases (mem_queriesSent.mp hx) with
    ⟨qtype, payload, rfl, hnext, hlen, rfl⟩ | ⟨seqid, st, hf, rfl, hsame, hlen, rfl⟩
  · exact ⟨hnext ▸ Nat.lt_succ_self _, _, payload, hlen, by rw [hi.seqid_eq]⟩
  · have hentry := hi.entry seqid st hf
    refine ⟨hsame ▸ hentry.query_lt, st.queryType.toU16, st.queryPayload, hlen, ?_⟩
    rw [CmdClient.queryDatagram, ← hentry.seqid_eq]

theorem CmdEffect.issued_le {a : CmdAction κ} (he : CmdEffect c a out c') :
    c.issued ≤ c'.issued := he.issuedCallbacks_length.2

theorem padInv_step (hi : PadInv tr n) (hs : PadStep n a out n') :
    PadInv (tr ++ [(a, out)]) n' := by
  have hold : ∀ x ∈ n.toClient, ∃ type qtype payload, payload.length ≤ kMaxCmdPayloadSize ∧
      x.2 = cmdDatagram (CmdPacketType.toU16 type) qtype x.1.toUInt16 payload ∧
      (type = .kReply → Answered (tr ++ [(a, out)]) x.1 payload) ∧
      (type = .kQueryAck ∨ type = .kReply) := by
    intro x hx
    obtain ⟨-, type, qtype, payload, hlen, hd, hans, ht⟩ := hi.toClient x hx
    exact ⟨type, qtype, payload, hlen, hd, fun h => (hans h).snoc, ht⟩
  cases hs with
  | client hne hs =>
    have hle := hs.effect.issued_le
    refine ⟨cmdInv_step hi.client hs, ?_, ?_⟩
    · intro x hx
      rcases List.mem_append.mp hx with hx | hx
      · exact ⟨Nat.lt_of_lt_of_le (hi.toPad x hx).1 hle, (hi.toPad x hx).2⟩
      · exact hs.effect.queriesSent hi.client x hx
    · intro x hx
      exact ⟨Nat.lt_of_lt_of_le (hi.toClient x hx).1 hle, hold x hx⟩
  | @answer q bytes rest payload h type hmem hr ht hlen =>
    refine ⟨hi.client, hi.toPad, ?_⟩
    intro x hx
    rcases List.mem_append.mp hx with hx | hx
    · exact ⟨(hi.toClient x hx).1, hold x hx⟩
    · obtain rfl := List.mem_singleton.mp hx
      obtain ⟨hlt, qtype, sent, hsent, hbytes⟩ := hi.toPad _ hmem
      rw [show bytes = _ from hbytes] at hr
      have hid : h.seqid = q.toUInt16 := seqid_of_read hsent hr
      refine ⟨hlt, type, h.qtype.toU16, payload, hlen, by rw [hid], ?_, ht⟩
      rintro rfl
      exact ⟨_, _, List.mem_append_right _ (List.mem_singleton_self _)⟩
  | deliver hmem hage hs =>
    have hle := hs.effect.issued_le
    refine ⟨cmdInv_step hi.client hs, ?_, ?_⟩
    · intro x hx
      exact ⟨Nat.lt_of_lt_of_le (hi.toPad x hx).1 hle, (hi.toPad x hx).2⟩
    · intro x hx
      exact ⟨Nat.lt_of_lt_of_le (hi.toClient x hx).1 hle, hold x hx⟩

theorem padInv_run {stopFd : Fd} (hrun : Steps PadStep (PadNet.create stopFd) tr n) :
    PadInv tr n :=
  Steps.invariant hrun (padInv_create stopFd) (fun _ _ _ _ _ hi hs => padInv_step hi hs)

/-- A query in flight is one of the last 65536, so an answer that is as young belongs to the query
in flight under its id. -/
theorem PadInv.query_eq {st : CmdState κ} {q' : ℕ} (hi : CmdInv c)
    (hf : c.findState q'.toUInt16 = some st) (hlt : q' < c.issued) (hage : c.issued ≤ q' + 65536) :
    st.query = q' := by
  have he := hi.entry _ _ hf
  have hmod := toUInt16_inj.mp he.seqid_eq
  have := he.query_lt
  have := he.issued_le
  omega

/-- Over runs of any length a callback that is told of success gets, byte for byte, a payload the
pad sent in reply to that very query. -/
theorem reply_matches_query {stopFd : Fd}
    (hrun : Steps PadStep (PadNet.create stopFd) (pre ++ (a, out) :: post) n)
    (hmem : .replyCallback q cb true data ∈ out) : Answered pre q data := by
  obtain ⟨n₁, n₂, hpre, hstep, -⟩ := Steps.split hrun
  have hi := padInv_run hpre
  cases hstep with
  | client hne hs =>
    obtain ⟨⟨msg, h, rest, rfl, -⟩, -⟩ := hs.effect.success hi.client hmem
    exact (hne msg rfl).elim
  | answer => simp at hmem
  | @deliver q' msg _ c' hin hage hs =>
    obtain ⟨⟨msg', h, rest, ha, hr, ht, hid, hle, rfl⟩, st, hf, rfl, -⟩ :=
      hs.effect.success hi.client hmem
    cases ha
    obtain ⟨hlt, type, qtype, payload, hlen, hmsg, hans, htype⟩ := hi.toClient _ hin
    rw [show msg = _ from hmsg] at hr
    have hq : st.query.toUInt16 = q'.toUInt16 := by
      rw [← hid]
      exact seqid_of_read hlen hr
    rw [read_datagram hlen] at hr
    cases hr
    rw [hq] at hf
    have heq := PadInv.query_eq hi.client hf hlt hage
    rw [heq, List.take_length]
    rcases htype with rfl | rfl
    · cases ht
    · exact hans rfl

/-- The theorem at one query whose acknowledgement and reply are delivered in order. -/
theorem reply_matches_query_exchange : ∃ (pre : PadTrace ℕ) (a : PadAction ℕ)
    (out : List (CmdOutput ℕ)) (n : PadNet ℕ),
    Steps PadStep (PadNet.create 3) (pre ++ (a, out) :: []) n ∧
    .replyCallback 0 7 true [1, 2] ∈ out ∧ Answered pre 0 [1, 2] := by
  have hlen : ([1, 2] : List UInt8).length ≤ kMaxCmdPayloadSize := by decide
  have hnil : ([] : List UInt8).length ≤ kMaxCmdPayloadSize := by decide
  have hr : CmdHeader.read (cmdDatagram 0 1 0 []) = some (⟨0, 1, 0, 0⟩, []) :=
    read_datagram hnil
  let sent : PadNet ℕ := ⟨firstQuery (some 7), [(0, cmdDatagram 0 1 0 [])], []⟩
  let acked : PadNet ℕ := { sent with toClient := [(0, cmdDatagram 1 1 0 [])] }
  let replied : PadNet ℕ :=
    { sent with toClient := [(0, cmdDatagram 1 1 0 []), (0, cmdDatagram 2 1 0 [1, 2])] }
  have hs₁ := PadStep.client (n := PadNet.create 3)
    (a := .asyncQuery .kUvcUacCommand [] (some 7) 4) (by simp) (firstQuery_step (some 7))
  have hs₂ := PadStep.answer (n := sent) (List.mem_singleton_self _) hr (.inl rfl) hnil
  have hs₃ := PadStep.answer (n := acked) (List.mem_singleton_self _) hr (.inr rfl) hlen
  have hs₄ := PadStep.deliver (n := replied) (List.mem_cons_self ..) (by decide)
    (firstAcked_step (some 7))
  have hs₅ := PadStep.deliver (n := { replied with client := firstAcked (some 7) })
    (List.mem_cons_of_mem _ (List.mem_singleton_self _)) (by decide) (firstReply_step 7 hlen)
  have hrun := ((((Steps.single (t := sent) hs₁).snoc (u := acked) hs₂).snoc
    (u := replied) hs₃).snoc hs₄).snoc hs₅
  have hmem : CmdOutput.replyCallback 0 7 true [1, 2] ∈
      [CmdOutput.replyAck (cmdDatagram 3 1 0 []), .replyCallback 0 7 true [1, 2]] := by simp
  exact ⟨_, _, _, _, hrun, hmem, reply_matches_query hrun hmem⟩

end Pc2Drc
