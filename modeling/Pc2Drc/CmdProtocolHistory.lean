import Pc2Drc.CmdProtocolInvariant

/-! What a run of the command client has shown of each query, and how it ties to its entry. -/
namespace Pc2Drc
open Lib

variable {κ : Type} {c c' : CmdClient κ} {a : CmdAction κ} {out out' : List (CmdOutput κ)}
  {seqid seqid' : UInt16} {st : CmdState κ} {fd : Fd} {q : ℕ} {tr : CmdTrace κ}

/-- The Query datagrams sent for a query. -/
def sends (q : ℕ) (out : List (CmdOutput κ)) : ℕ :=
  out.countP fun o => match o with
    | .query q' _ => q' = q
    | _ => false

/-- The invocations of a query's callback. -/
def completions (q : ℕ) (out : List (CmdOutput κ)) : List (κ × Bool × List UInt8) :=
  out.filterMap fun o => match o with
    | .replyCallback q' cb success data => if q' = q then some (cb, success, data) else none
    | _ => none

def outputs (tr : CmdTrace κ) : List (CmdOutput κ) := tr.flatMap Prod.snd

/-- The callbacks given to `AsyncQuery`, by query number. -/
def issuedCallbacks (tr : CmdTrace κ) : List (Option κ) :=
  tr.filterMap fun x => match x.1 with
    | .asyncQuery _ _ cb _ => some cb
    | _ => none

/-- A timer fires that was set for the id of a query. -/
def firesTimerOf (q : ℕ) : CmdAction κ → Bool
  | .timer evt _ => evt.callback = .user (.retryOperation q.toUInt16)
  | _ => false

/-- After `pre` the step is an expiry of a query's timer: a timer set for its id fires, and no
later query has taken the id. -/
def isExpiry (q : ℕ) (pre : CmdTrace κ) (a : CmdAction κ) : Bool :=
  firesTimerOf q a && q < (issuedCallbacks pre).length &&
    (issuedCallbacks pre).length ≤ q + 65536

/-- The expiries of a query's timer in a run. -/
def expiries (q : ℕ) (tr : CmdTrace κ) : ℕ :=
  countPlaces (fun pre x => isExpiry q pre x.1) tr

/-- The step receives an acknowledgement with the id of a query. -/
def IsQueryAck (q : ℕ) (a : CmdAction κ) : Prop :=
  ∃ msg h rest, a = .packetReceived msg ∧ CmdHeader.read msg = some (h, rest) ∧
    h.type = .kQueryAck ∧ h.seqid = q.toUInt16

/-- An acknowledgement with the query's id arrived after its latest transmission. -/
def AckedSinceSent (q : ℕ) (tr : CmdTrace κ) : Prop :=
  ∃ pre x post, tr = pre ++ x :: post ∧ IsQueryAck q x.1 ∧ 0 < sends q (outputs pre) ∧
    sends q (outputs (x :: post)) = 0

def InFlight (c : CmdClient κ) (q : ℕ) : Prop :=
  ∃ seqid st, c.findState seqid = some st ∧ st.query = q

/-- Nothing of a query is shown. -/
def Silent (q : ℕ) (out : List (CmdOutput κ)) : Prop :=
  sends q out = 0 ∧ completions q out = []

@[simp]
theorem sends_append : sends q (out ++ out') = sends q out + sends q out' :=
  List.countP_append

@[simp]
theorem completions_append :
    completions q (out ++ out') = completions q out ++ completions q out' :=
  List.filterMap_append

@[simp]
theorem outputs_snoc : outputs (tr ++ [(a, out)]) = outputs tr ++ out := by
  simp [outputs]

theorem issuedCallbacks_snoc : issuedCallbacks (tr ++ [(a, out)]) =
    issuedCallbacks tr ++ issuedCallbacks [(a, out)] :=
  List.filterMap_append

theorem expiries_snoc :
    expiries q (tr ++ [(a, out)]) = expiries q tr + (isExpiry q tr a).toNat :=
  countPlaces_snoc

theorem expiries_snoc_of_not (h : isExpiry q tr a = false) :
    expiries q (tr ++ [(a, out)]) = expiries q tr := by
  rw [expiries_snoc, h]
  rfl

/-- A query that is not yet issued has no timer. -/
theorem isExpiry_unseen (h : (issuedCallbacks tr).length ≤ q) : isExpiry q tr a = false := by
  simp [isExpiry, Nat.not_lt.mpr h]

theorem mem_invoke {o : CmdOutput κ} {ok : Bool} {data : List UInt8} :
    o ∈ CmdClient.invoke st ok data ↔
      ∃ cb, st.replyCallback = some cb ∧ o = .replyCallback st.query cb ok data := by
  unfold CmdClient.invoke
  split <;> simp_all

theorem mem_replyAckOf {o : CmdOutput κ} {h : CmdHeader}
    (hmem : o ∈ CmdClient.replyAckOf h) : ∃ bytes, o = .replyAck bytes := by
  unfold CmdClient.replyAckOf at hmem
  split at hmem
  · exact ⟨_, List.mem_singleton.mp hmem⟩
  · simp at hmem

/-- A Query datagram leaves a step only for the query that it issues or sends again. -/
theorem CmdEffect.query_cases {bytes : List UInt8} (he : CmdEffect c a out c')
    (hmem : .query q bytes ∈ out) :
    (∃ (qtype : CmdQueryType) (payload : List UInt8), q = c.issued ∧ c'.issued = c.issued + 1 ∧
      payload.length ≤ kMaxCmdPayloadSize ∧
      bytes = cmdDatagram 0 qtype.toU16 c.seqid payload) ∨
    ∃ seqid st, c.findState seqid = some st ∧ q = st.query ∧ c'.issued = c.issued ∧
      st.queryPayload.length ≤ kMaxCmdPayloadSize ∧ bytes = CmdClient.queryDatagram seqid st := by
  cases he with
  | @issued qtype payload cb fd hfd hnone hlen =>
    obtain ⟨rfl, rfl⟩ : q = c.issued ∧ bytes = cmdDatagram 0 qtype.toU16 c.seqid payload := by
      simpa using hmem
    exact Or.inl ⟨qtype, payload, rfl, rfl, hlen, rfl⟩
  | ignored | acked =>
    obtain ⟨ack, ho⟩ := mem_replyAckOf hmem
    cases ho
  | replied =>
    rcases List.mem_append.mp hmem with hmem | hmem
    · obtain ⟨ack, ho⟩ := mem_replyAckOf hmem
      cases ho
    · obtain ⟨cb, -, ho⟩ := mem_invoke.mp hmem
      cases ho
  | failed =>
    rcases List.mem_cons.mp hmem with ho | hmem
    · cases ho
    · obtain ⟨cb, -, ho⟩ := mem_invoke.mp hmem
      cases ho
  | @retried evt seqid fd st hl hcb hfd hf hmax hlen =>
    obtain ⟨rfl, rfl⟩ : q = st.query ∧ bytes = CmdClient.queryDatagram seqid st := by
      simpa using hmem
    exact Or.inr ⟨seqid, st, hf, rfl, rfl, hlen, rfl⟩

theorem silent_nil : Silent q ([] : List (CmdOutput κ)) := ⟨rfl, rfl⟩

theorem silent_replyAckOf (h : CmdHeader) :
    Silent q (CmdClient.replyAckOf h : List (CmdOutput κ)) := by
  unfold CmdClient.replyAckOf
  split <;> exact ⟨rfl, rfl⟩

theorem sends_invoke {success : Bool} {data : List UInt8} :
    sends q (CmdClient.invoke st success data) = 0 := by
  unfold CmdClient.invoke
  split <;> rfl

theorem completions_invoke {success : Bool} {data : List UInt8} :
    completions q (CmdClient.invoke st success data) =
      if st.query = q then (st.replyCallback.map fun cb => (cb, success, data)).toList else [] := by
  unfold CmdClient.invoke
  split <;> split_ifs <;> simp_all [completions]

theorem silent_invoke {success : Bool} {data : List UInt8} (h : st.query ≠ q) :
    Silent q (CmdClient.invoke st success data) :=
  ⟨sends_invoke, by rw [completions_invoke, if_neg h]⟩

theorem Silent.append (h : Silent q out) (h' : Silent q out') : Silent q (out ++ out') := by
  obtain ⟨hs, hc⟩ := h
  obtain ⟨hs', hc'⟩ := h'
  exact ⟨by simp [hs, hs'], by simp [hc, hc']⟩

theorem silent_query {bytes : List UInt8} {q' : ℕ} (h : q' ≠ q) :
    Silent q [(.query q' bytes : CmdOutput κ)] := by
  simp [Silent, sends, completions, h]

theorem silent_expired {q' : ℕ} : Silent q [(.expired q' : CmdOutput κ)] := ⟨rfl, rfl⟩

/-- The latest step either sends the query, or keeps or makes the acknowledgement. -/
theorem ackedSinceSent_snoc : AckedSinceSent q (tr ++ [(a, out)]) ↔
    sends q out = 0 ∧ (AckedSinceSent q tr ∨ IsQueryAck q a ∧ 0 < sends q (outputs tr)) := by
  constructor
  · rintro ⟨pre, x, post, he, hack, hpos, hzero⟩
    rcases List.eq_nil_or_concat post with rfl | ⟨mid, last, rfl⟩
    · obtain ⟨rfl, hx⟩ := List.append_inj' he rfl
      cases hx
      exact ⟨by simpa [outputs] using hzero, Or.inr ⟨hack, hpos⟩⟩
    · rw [List.concat_eq_append] at he hzero
      have he' : tr ++ [(a, out)] = (pre ++ x :: mid) ++ [last] := by simpa using he
      obtain ⟨rfl, hlast⟩ := List.append_inj' he' rfl
      cases hlast
      rw [← List.cons_append, outputs_snoc, sends_append, Nat.add_eq_zero_iff] at hzero
      exact ⟨hzero.2, Or.inl ⟨pre, x, mid, rfl, hack, hpos, hzero.1⟩⟩
  · rintro ⟨hzero, ⟨pre, x, post, rfl, hack, hpos, hz⟩ | ⟨hack, hpos⟩⟩
    · refine ⟨pre, x, post ++ [(a, out)], by simp, hack, hpos, ?_⟩
      rw [← List.cons_append, outputs_snoc, sends_append, hz, hzero]
    · exact ⟨tr, (a, out), [], rfl, hack, hpos, by simpa [outputs] using hzero⟩

/-- What the history says of a query in flight. -/
structure EntryHist (tr : CmdTrace κ) (st : CmdState κ) : Prop where
  sends_eq : sends st.query (outputs tr) = st.retriesCount + 1
  expiries_eq : expiries st.query tr = st.retriesCount
  completions_eq : completions st.query (outputs tr) = []
  callback_eq : (issuedCallbacks tr)[st.query]? = some st.replyCallback
  acked_iff : st.state = .kReply ↔ AckedSinceSent st.query tr

/-- What the history says of all queries: those to come, those in flight and those that left. -/
structure HistInv (tr : CmdTrace κ) (c : CmdClient κ) : Prop where
  issued_eq : (issuedCallbacks tr).length = c.issued
  unseen : ∀ q, c.issued ≤ q → Silent q (outputs tr) ∧ expiries q tr = 0
  entry : ∀ seqid st, c.findState seqid = some st → EntryHist tr st
  gone : ∀ q cb, (issuedCallbacks tr)[q]? = some cb → ¬ InFlight c q →
    (completions q (outputs tr)).map Prod.fst = cb.toList

theorem histInv_create (stopFd : Fd) : HistInv [] (CmdClient.create stopFd : CmdClient κ) where
  issued_eq := rfl
  unseen := fun _ _ => ⟨silent_nil, rfl⟩
  entry := by
    intro seqid st h
    simp [CmdClient.create, CmdClient.findState] at h
  gone := by
    intro q cb h
    simp [issuedCallbacks] at h

theorem issuedCallbacks_getElem? {cb : Option κ} (h : (issuedCallbacks tr)[q]? = some cb) :
    (issuedCallbacks (tr ++ [(a, out)]))[q]? = some cb := by
  rw [issuedCallbacks_snoc, List.getElem?_append_left (List.getElem?_eq_some_iff.mp h).1, h]

/-- A timer set for the id of a query in flight is that query's. -/
theorem HistInv.isExpiry_timer (hh : HistInv tr c) (hi : CmdInv c) {evt : Event CmdEvent}
    (hcb : evt.callback = .user (.retryOperation seqid)) (hf : c.findState seqid = some st) :
    isExpiry q tr (.timer evt fd) = true ↔ st.query = q := by
  obtain ⟨hid, hlt, hle, -⟩ := hi.entry _ _ hf
  simp only [isExpiry, firesTimerOf, hh.issued_eq, Bool.and_eq_true, decide_eq_true_eq, hcb,
    Callback.user.injEq, CmdEvent.retryOperation.injEq, hid, toUInt16_inj]
  constructor
  · rintro ⟨⟨hq, hqlt⟩, hqle⟩
    -- both were issued within one round of ids
    omega
  · rintro rfl
    exact ⟨⟨rfl, hlt⟩, hle⟩

/-- The timer of one query in flight is not that of another. -/
theorem HistInv.isExpiry_other (hh : HistInv tr c) (hi : CmdInv c) {evt : Event CmdEvent}
    (hcb : evt.callback = .user (.retryOperation seqid)) (hf : c.findState seqid = some st)
    (hne : st.query ≠ q) : isExpiry q tr (.timer evt fd) = false := by
  rw [Bool.eq_false_iff, ne_eq, hh.isExpiry_timer hi hcb hf]
  exact hne

/-- A step that shows nothing of a query in flight and does not acknowledge it anew. -/
theorem EntryHist.frame (h : EntryHist tr st) (hq : Silent st.query out)
    (hexp : isExpiry st.query tr a = false)
    (hack : IsQueryAck st.query a → st.state = .kReply) : EntryHist (tr ++ [(a, out)]) st where
  sends_eq := by simp [h.sends_eq, hq.1]
  expiries_eq := by rw [expiries_snoc_of_not hexp, h.expiries_eq]
  completions_eq := by simp [h.completions_eq, hq.2]
  callback_eq := issuedCallbacks_getElem? h.callback_eq
  acked_iff := by
    rw [ackedSinceSent_snoc, ← h.acked_iff]
    constructor
    · intro hr
      exact ⟨hq.1, Or.inl hr⟩
    · rintro ⟨_, hr | ⟨ha, _⟩⟩
      · exact hr
      · exact hack ha

/-- Entries with different ids are entries of different queries. -/
theorem CmdInv.query_ne (hi : CmdInv c) {st' : CmdState κ} (hf : c.findState seqid = some st)
    (hf' : c.findState seqid' = some st') (hne : seqid' ≠ seqid) : st.query ≠ st'.query := by
  intro h
  rw [(hi.entry _ _ hf).seqid_eq, (hi.entry _ _ hf').seqid_eq, h] at hne
  exact hne rfl

theorem not_isQueryAck_asyncQuery {qtype : CmdQueryType} {payload : List UInt8} {cb : Option κ} :
    ¬ IsQueryAck q (.asyncQuery qtype payload cb fd : CmdAction κ) := by
  rintro ⟨msg, h, rest, he, -⟩
  cases he

theorem not_isQueryAck_timer {evt : Event CmdEvent} :
    ¬ IsQueryAck q (.timer evt fd : CmdAction κ) := by
  rintro ⟨msg, h, rest, he, -⟩
  cases he

theorem isQueryAck_packetReceived {msg rest : List UInt8} {h : CmdHeader}
    (hr : CmdHeader.read msg = some (h, rest)) :
    IsQueryAck q (.packetReceived msg : CmdAction κ) ↔
      h.type = .kQueryAck ∧ h.seqid = q.toUInt16 := by
  constructor
  · rintro ⟨msg', h', rest', he, hr', ht, hs⟩
    cases he
    cases hr.symm.trans hr'
    exact ⟨ht, hs⟩
  · rintro ⟨ht, hs⟩
    exact ⟨msg, h, rest, rfl, hr, ht, hs⟩

/-- A step shows something of at most one query that was issued before it. -/
theorem CmdEffect.silent (he : CmdEffect c a out c') (hi : CmdInv c) (hq : c'.issued ≤ q) :
    Silent q out := by
  cases he with
  | issued =>
    exact silent_query (Nat.ne_of_lt hq)
  | ignored => exact silent_replyAckOf _
  | acked => exact silent_replyAckOf _
  | replied _ hf =>
    have hlt : _ < c.issued := (hi.entry _ _ hf).query_lt
    exact (silent_replyAckOf _).append (silent_invoke (Nat.ne_of_lt (Nat.lt_of_lt_of_le hlt hq)))
  | failed _ _ _ hf =>
    have hne := Nat.ne_of_lt (Nat.lt_of_lt_of_le (hi.entry _ _ hf).query_lt hq)
    exact silent_expired.append (silent_invoke hne)
  | retried _ _ _ hf =>
    have hne := Nat.ne_of_lt (Nat.lt_of_lt_of_le (hi.entry _ _ hf).query_lt hq)
    exact silent_expired.append (silent_query hne)

theorem CmdEffect.issuedCallbacks_length (he : CmdEffect c a out c') :
    (issuedCallbacks [(a, out)]).length = c'.issued - c.issued ∧ c.issued ≤ c'.issued := by
  cases he with
  | issued => simp [issuedCallbacks]
  | ignored => simp [issuedCallbacks]
  | acked => simp [issuedCallbacks, CmdClient.storeState]
  | replied => simp [issuedCallbacks, CmdClient.complete, CmdClient.removeState]
  | failed => simp [issuedCallbacks, CmdClient.complete, CmdClient.removeState]
  | retried => simp [issuedCallbacks, CmdClient.retransmit]

/-- The entry of a query that was just issued. -/
theorem HistInv.entryHist_issued (hh : HistInv tr c) {st0 : CmdState κ}
    {timer : Option (Event CmdEvent)} {qtype : CmdQueryType} {payload bytes : List UInt8}
    {cb : Option κ}
    (hst : st0 = { c.freshState qtype payload cb with timeoutEvt := timer, state := .kQueryAck }) :
    EntryHist (tr ++ [(.asyncQuery qtype payload cb fd, [.query c.issued bytes])]) st0 := by
  subst hst
  obtain ⟨⟨hsend, hcomp⟩, hexp⟩ := hh.unseen c.issued le_rfl
  have hone : sends c.issued [(.query c.issued bytes : CmdOutput κ)] = 1 := by
    simp [sends]
  exact {
    sends_eq := by
      change sends c.issued _ = 0 + 1
      simp [hsend, hone]
    expiries_eq := by
      change expiries c.issued _ = 0
      rw [expiries_snoc_of_not rfl, hexp]
    completions_eq := by
      change completions c.issued _ = []
      rw [outputs_snoc, completions_append, hcomp]
      rfl
    callback_eq := by
      change (issuedCallbacks _)[c.issued]? = some cb
      rw [issuedCallbacks_snoc, ← hh.issued_eq]
      simp [issuedCallbacks]
    acked_iff := by
      change CmdPacketType.kQueryAck = _ ↔ AckedSinceSent c.issued _
      simp [ackedSinceSent_snoc, hone] }

/-- The entry of a query whose acknowledgement came in. -/
theorem EntryHist.acked (hh : EntryHist tr st) {msg rest : List UInt8} {h : CmdHeader}
    (hr : CmdHeader.read msg = some (h, rest)) (ht : h.type = .kQueryAck)
    (hid : h.seqid = st.query.toUInt16) :
    EntryHist (tr ++ [(.packetReceived msg, CmdClient.replyAckOf h)])
      { st with state := .kReply } := by
  have hsil : Silent st.query (CmdClient.replyAckOf h : List (CmdOutput κ)) := silent_replyAckOf h
  exact {
    sends_eq := by simp [hh.sends_eq, hsil.1]
    expiries_eq := by rw [expiries_snoc_of_not rfl, hh.expiries_eq]
    completions_eq := by simp [hh.completions_eq, hsil.2]
    callback_eq := issuedCallbacks_getElem? hh.callback_eq
    acked_iff := by
      rw [ackedSinceSent_snoc, hsil.1, isQueryAck_packetReceived hr, hh.sends_eq]
      simp [ht, hid] }

/-- The entry of a query that was transmitted again. -/
theorem EntryHist.retried (hh : EntryHist tr st) {timer : Option (Event CmdEvent)}
    {evt : Event CmdEvent} {bytes : List UInt8}
    (hexp : isExpiry st.query tr (.timer evt fd) = true) :
    EntryHist (tr ++ [(.timer evt fd, [.expired st.query, .query st.query bytes])])
      { st with
        retriesCount := st.retriesCount + 1, timeoutEvt := timer, state := .kQueryAck } where
  sends_eq := by
    rw [outputs_snoc, sends_append, hh.sends_eq]
    simp [sends]
  expiries_eq := by
    rw [expiries_snoc, hexp, hh.expiries_eq]
    rfl
  completions_eq := by
    rw [outputs_snoc, completions_append, hh.completions_eq]
    rfl
  callback_eq := issuedCallbacks_getElem? hh.callback_eq
  acked_iff := by simp [ackedSinceSent_snoc, sends]

/-- Each entry after a step is an entry before it, untouched, or the one the step is about. -/
theorem CmdEffect.entryHist (he : CmdEffect c a out c') (hi : CmdInv c) (hh : HistInv tr c)
    (hs : c'.findState seqid = some st) : EntryHist (tr ++ [(a, out)]) st := by
  cases he with
  | @issued qtype payload cb fd hfd hnone hlen =>
    by_cases hne : seqid = c.seqid
    · subst hne
      cases (CmdClient.findState_sentClient_self).symm.trans hs
      exact hh.entryHist_issued rfl
    · rw [CmdClient.findState_sentClient_ne hne] at hs
      have hlt : st.query < c.issued := (hi.entry _ _ hs).query_lt
      exact (hh.entry _ _ hs).frame (silent_query (Nat.ne_of_gt hlt)) rfl
        (fun h => (not_isQueryAck_asyncQuery h).elim)
  | @ignored msg rest h hr hno =>
    refine (hh.entry _ _ hs).frame (silent_replyAckOf _) rfl ?_
    intro hack
    obtain ⟨ht, hid⟩ := (isQueryAck_packetReceived hr).mp hack
    have he := hi.entry _ _ hs
    rw [← he.seqid_eq] at hid
    rcases he.state_eq with hst | hst
    · exact ((hno st (hid ▸ hs) (ht.trans hst.symm)).2 ht).elim
    · exact hst
  | @acked msg rest h st0 hr hf ht hst =>
    by_cases hne : seqid = h.seqid
    · subst hne
      cases (CmdClient.findState_storeState_self).symm.trans hs
      exact (hh.entry _ _ hf).acked hr ht (hi.entry _ _ hf).seqid_eq
    · rw [CmdClient.findState_storeState_ne hne] at hs
      refine (hh.entry _ _ hs).frame (silent_replyAckOf _) rfl ?_
      intro hack
      have hid := ((isQueryAck_packetReceived hr).mp hack).2
      rw [← (hi.entry _ _ hs).seqid_eq] at hid
      exact (hne hid.symm).elim
  | @replied msg rest data h st0 evt e hr hf ht hst _ _ _ _ =>
    have hne : seqid ≠ h.seqid := by
      rintro rfl
      simp at hs
    rw [CmdClient.findState_complete_ne hne] at hs
    refine (hh.entry _ _ hs).frame
      ((silent_replyAckOf _).append (silent_invoke (hi.query_ne hf hs hne))) rfl ?_
    intro hack
    rw [isQueryAck_packetReceived hr, ht] at hack
    cases hack.1
  | @failed evt seqid0 fd st0 hl hcb _ hf _ =>
    have hne : seqid ≠ seqid0 := by
      rintro rfl
      simp at hs
    rw [CmdClient.findState_complete_ne hne] at hs
    have hq := hi.query_ne hf hs hne
    exact (hh.entry _ _ hs).frame (silent_expired.append (silent_invoke hq))
      (hh.isExpiry_other hi hcb hf hq) (fun h => (not_isQueryAck_timer h).elim)
  | @retried evt seqid0 fd st0 hl hcb hfd hf hmax hlen =>
    by_cases hne : seqid = seqid0
    · subst hne
      cases (CmdClient.findState_sentClient_self).symm.trans hs
      exact (hh.entry _ _ hf).retried ((hh.isExpiry_timer hi hcb hf).mpr rfl)
    · replace hs := (CmdClient.findState_sentClient_ne hne).symm.trans hs
      have hq := hi.query_ne hf hs hne
      exact (hh.entry _ _ hs).frame (silent_expired.append (silent_query hq))
        (hh.isExpiry_other hi hcb hf hq) (fun h => (not_isQueryAck_timer h).elim)

/-- Nothing more is shown of a query that has left. -/
theorem CmdEffect.silent_of_gone (he : CmdEffect c a out c') (hq : q < c.issued)
    (hnot : ¬ InFlight c q) : Silent q out := by
  cases he with
  | issued => exact silent_query (Nat.ne_of_gt hq)
  | ignored => exact silent_replyAckOf _
  | acked => exact silent_replyAckOf _
  | replied _ hf =>
    exact (silent_replyAckOf _).append (silent_invoke fun h => hnot ⟨_, _, hf, h⟩)
  | failed _ _ _ hf =>
    have hne := fun h => hnot ⟨_, _, hf, h⟩
    exact silent_expired.append (silent_invoke hne)
  | retried _ _ _ hf =>
    have hne := fun h => hnot ⟨_, _, hf, h⟩
    exact silent_expired.append (silent_query hne)

/-- A query stays in flight unless the step completes it. -/
theorem CmdEffect.inFlight (he : CmdEffect c a out c') (hf : c.findState seqid = some st) :
    InFlight c' st.query ∨ ∃ success data, completions st.query out =
      (st.replyCallback.map fun cb => (cb, success, data)).toList := by
  cases he with
  | @issued qtype payload cb fd hfd hnone hlen =>
    have hne : seqid ≠ c.seqid := by
      rintro rfl
      cases hnone.symm.trans hf
    exact Or.inl ⟨seqid, st, (CmdClient.findState_sentClient_ne hne).trans hf, rfl⟩
  | ignored => exact Or.inl ⟨seqid, st, hf, rfl⟩
  | @acked msg rest h st0 hr hf0 ht hst =>
    by_cases hne : seqid = h.seqid
    · subst hne
      cases hf.symm.trans hf0
      exact Or.inl ⟨h.seqid, _, CmdClient.findState_storeState_self, rfl⟩
    · exact Or.inl ⟨seqid, st, (CmdClient.findState_storeState_ne hne).trans hf, rfl⟩
  | @replied msg rest data h st0 evt e hr hf0 =>
    by_cases hne : seqid = h.seqid
    · subst hne
      cases hf.symm.trans hf0
      refine Or.inr ⟨true, data, ?_⟩
      rw [completions_append, (silent_replyAckOf h).2, completions_invoke, if_pos rfl,
        List.nil_append]
    · exact Or.inl ⟨seqid, st, (CmdClient.findState_complete_ne hne).trans hf, rfl⟩
  | @failed evt seqid0 fd st0 hl hcb _ hf0 =>
    by_cases hne : seqid = seqid0
    · subst hne
      cases hf.symm.trans hf0
      refine Or.inr ⟨false, [], ?_⟩
      exact completions_invoke.trans (if_pos rfl)
    · exact Or.inl ⟨seqid, st, (CmdClient.findState_complete_ne hne).trans hf, rfl⟩
  | @retried evt seqid0 fd st0 hl hcb hfd hf0 =>
    by_cases hne : seqid = seqid0
    · subst hne
      cases hf.symm.trans hf0
      exact Or.inl ⟨seqid, _, CmdClient.findState_sentClient_self, rfl⟩
    · exact Or.inl ⟨seqid, st, (CmdClient.findState_sentClient_ne hne).trans hf, rfl⟩

/-- A query that has just been issued is in flight. -/
theorem CmdEffect.inFlight_new (he : CmdEffect c a out c') (hq : c.issued ≤ q)
    (hq' : q < c'.issued) : InFlight c' q := by
  cases he with
  | @issued qtype payload cb fd =>
    have heq : q = c.issued := by
      simp at hq'
      omega
    subst heq
    exact ⟨c.seqid, _, CmdClient.findState_sentClient_self, rfl⟩
  | ignored | acked | replied | failed | retried => exact absurd hq' (Nat.not_lt_of_le hq)

theorem histInv_step (hi : CmdInv c) (hh : HistInv tr c) (hs : CmdStep c a out c') :
    HistInv (tr ++ [(a, out)]) c' := by
  have he := hs.effect
  obtain ⟨hlen, hle⟩ := he.issuedCallbacks_length
  have hissued : (issuedCallbacks (tr ++ [(a, out)])).length = c'.issued := by
    rw [issuedCallbacks_snoc, List.length_append, hh.issued_eq, hlen]
    omega
  refine ⟨hissued, ?_, fun seqid st h => he.entryHist hi hh h, ?_⟩
  · intro q hq
    obtain ⟨hsil, hexp⟩ := hh.unseen q (hle.trans hq)
    have hnot : isExpiry q tr a = false := isExpiry_unseen (hh.issued_eq ▸ hle.trans hq)
    rw [outputs_snoc, expiries_snoc_of_not hnot]
    exact ⟨hsil.append (he.silent hi hq), hexp⟩
  · intro q cb hcb hnot
    have hq' : q < c'.issued := hissued ▸ (List.getElem?_eq_some_iff.mp hcb).1
    have hq : q < c.issued := by
      by_contra hge
      exact hnot (he.inFlight_new (Nat.le_of_not_lt hge) hq')
    rw [issuedCallbacks_snoc, List.getElem?_append_left (hh.issued_eq.symm ▸ hq)] at hcb
    rw [outputs_snoc, completions_append]
    by_cases hin : InFlight c q
    · obtain ⟨seqid, st, hf, rfl⟩ := hin
      have hh0 := hh.entry _ _ hf
      cases hcb.symm.trans hh0.callback_eq
      rcases he.inFlight hf with h | ⟨success, data, h⟩
      · exact (hnot h).elim
      · rw [hh0.completions_eq, h, List.nil_append]
        cases st.replyCallback <;> rfl
    · rw [(he.silent_of_gone hq hin).2, List.append_nil]
      exact hh.gone q cb hcb hin

theorem histInv_run {stopFd : Fd} (h : CmdRun stopFd tr c) : HistInv tr c := by
  have hboth : CmdInv c ∧ HistInv tr c := by
    refine Steps.invariant (P := fun tr c => CmdInv c ∧ HistInv tr c) h
      ⟨cmdInv_create stopFd, histInv_create stopFd⟩ ?_
    rintro tr c a out c' ⟨hi, hh⟩ hs
    exact ⟨cmdInv_step hi hs, histInv_step hi hh hs⟩
  exact hboth.2

end Pc2Drc
