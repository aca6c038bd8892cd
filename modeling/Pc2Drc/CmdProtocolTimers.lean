import Mathlib.Data.Set.Function
import Pc2Drc.CmdProtocolInvariant
import Pc2Drc.EventLoop

/-! The command client with its event thread, batch entry by batch entry: queries in flight and
registered timers stay paired. -/
namespace Pc2Drc
open Lib

/-- The client, and what its event thread has still to dispatch of the batch it polled. -/
structure CmdLoop (κ : Type) where
  client : CmdClient κ
  batch : List Fd

/-- A step that may create a timer names the descriptor it gets. -/
inductive CmdLoopAction (κ : Type)
  | asyncQuery (qtype : CmdQueryType) (payload : List UInt8) (cb : Option κ) (fd : Fd)
  | packetReceived (msg : List UInt8)
  | poll (triggered : List Fd)
  | dispatch (fd : Fd)

namespace CmdLoop

variable {κ : Type}

def create (stopFd : Fd) : CmdLoop κ := ⟨.create stopFd, []⟩

/-- One round of the loop over a batch: the map lookup, the callback, and the erasure when the
callback returns false. -/
def dispatch (c : CmdClient κ) (entry fd : Fd) : Except Fault (CmdClient κ × List (CmdOutput κ)) :=
  match c.em.events.lookup entry with
  | none => .ok (c, [])
  | some evt =>
    match evt.callback with
    | .stop => .ok ({ c with em := c.em.stopHandler }, [])
    | .user (.retryOperation seqid) => do
      let (c, out) ← c.retryOperation seqid fd
      return ({ c with em := { c.em with events := c.em.events.erase entry } }, out)

def handle (l : CmdLoop κ) : CmdLoopAction κ → Except Fault (CmdLoop κ × List (CmdOutput κ))
  | .asyncQuery qtype payload cb fd => do
    let (c, out) ← l.client.asyncQuery qtype payload cb fd
    return ({ l with client := c }, out)
  | .packetReceived msg => do
    let (c, out) ← l.client.packetReceived msg
    return ({ l with client := c }, out)
  | .poll triggered => .ok ({ l with batch := triggered }, [])
  | .dispatch fd =>
    match l.batch with
    | [] => .ok (l, [])
    | entry :: rest => do
      let (c, out) ← dispatch l.client entry fd
      return (⟨c, rest⟩, out)

/-- A new timer gets a descriptor that no registered event holds. The loop polls when its batch is
done; the batch is any list of descriptors, also of events that are gone by the time they are
dispatched. -/
def Enabled (l : CmdLoop κ) : CmdLoopAction κ → Prop
  | .asyncQuery _ _ _ fd => fd ∉ l.client.em.events
  | .packetReceived _ => True
  | .poll _ => l.batch = []
  | .dispatch fd => fd ∉ l.client.em.events ∧ l.batch ≠ []

end CmdLoop

def CmdLoopStep {κ : Type} (l : CmdLoop κ) (a : CmdLoopAction κ) (out : List (CmdOutput κ))
    (l' : CmdLoop κ) : Prop :=
  l.Enabled a ∧ l.handle a = .ok (l', out)

abbrev CmdLoopTrace (κ : Type) := List (CmdLoopAction κ × List (CmdOutput κ))

def CmdLoopRun {κ : Type} (stopFd : Fd) (tr : CmdLoopTrace κ) (l : CmdLoop κ) : Prop :=
  Steps CmdLoopStep (CmdLoop.create stopFd) tr l

namespace CmdClient

variable {κ : Type}

/-- The timeout event stored with a sequence id. -/
def timeoutOf (c : CmdClient κ) (seqid : UInt16) : Option (Event CmdEvent) :=
  (c.findState seqid).bind (·.timeoutEvt)

def inFlight (c : CmdClient κ) : Set UInt16 := {seqid | (c.findState seqid).isSome}

/-- The timer events of the machine: all but the stop event. -/
def registeredTimers (c : CmdClient κ) : Set (Event CmdEvent) :=
  {evt | (∃ fd, c.em.events.lookup fd = some evt) ∧ evt.callback ≠ .stop}

end CmdClient

/-- The pairing of queries and timers. -/
structure TimersMatch {κ : Type} (c : CmdClient κ) : Prop where
  bijOn : Set.BijOn c.timeoutOf c.inFlight (some '' c.registeredTimers)
  retries : ∀ seqid evt, c.timeoutOf seqid = some evt →
    evt.callback = .user (.retryOperation seqid)
  keyed : ∀ fd evt, c.em.events.lookup fd = some evt → evt.callback ≠ .stop → evt.fd = fd

/-- The assertions of `CancelEvent` and `RetryOperation` hold in the next step, and a pointer that
is followed points to a live event. -/
structure AssertionsHold {κ : Type} (l : CmdLoop κ) : Prop where
  received : ∀ msg, l.handle (.packetReceived msg) ≠ .error .assertion ∧
    l.handle (.packetReceived msg) ≠ .error .dangling
  dispatched : ∀ fd, l.Enabled (.dispatch fd) → ∃ l' out, CmdLoopStep l (.dispatch fd) out l'

variable {κ : Type} {c c' : CmdClient κ} {l l' : CmdLoop κ} {a : CmdLoopAction κ}
  {out : List (CmdOutput κ)} {stopFd fd : Fd}

/-- No timer is taken for the stop event. -/
structure StopDistinct (c : CmdClient κ) : Prop where
  fresh : c.em.stopEvt < c.em.nextPtr
  timer : ∀ fd evt, c.em.events.lookup fd = some evt → evt.callback ≠ .stop →
    evt.ptr ≠ c.em.stopEvt

theorem StopDistinct.insert {evt : Event CmdEvent} (h : StopDistinct c)
    (hevents : c'.em.events = c.em.events.insert fd evt) (hstop : c'.em.stopEvt = c.em.stopEvt)
    (hnext : c'.em.nextPtr = c.em.nextPtr + 1) (hptr : evt.ptr = c.em.nextPtr) :
    StopDistinct c' := by
  have hfresh := h.fresh
  refine ⟨by omega, ?_⟩
  intro fd' evt' hlook hcb
  rw [hstop]
  rw [hevents] at hlook
  by_cases hfd : fd' = fd
  · subst hfd
    cases (AList.lookup_insert _).symm.trans hlook
    omega
  · rw [AList.lookup_insert_ne hfd] at hlook
    exact h.timer fd' evt' hlook hcb

theorem StopDistinct.erase (h : StopDistinct c) (hevents : c'.em.events = c.em.events.erase fd)
    (hstop : c'.em.stopEvt = c.em.stopEvt) (hnext : c'.em.nextPtr = c.em.nextPtr) :
    StopDistinct c' := by
  refine ⟨by rw [hstop, hnext]; exact h.fresh, ?_⟩
  intro fd' evt' hlook hcb
  rw [hstop]
  rw [hevents] at hlook
  exact h.timer fd' evt' (lookup_of_erase hlook) hcb

theorem StopDistinct.step {a : CmdAction κ} (h : StopDistinct c) (hs : CmdStep c a out c') :
    StopDistinct c' := by
  cases hs.effect with
  | issued => exact h.insert rfl rfl rfl rfl
  | ignored => exact h
  | acked => exact ⟨h.fresh, h.timer⟩
  | replied => exact h.erase rfl rfl rfl
  | failed => exact h.erase rfl rfl rfl
  | @retried evt seqid fd st =>
    have hsent : StopDistinct
        (c.sentClient seqid { st with retriesCount := st.retriesCount + 1 } fd) :=
      h.insert rfl rfl rfl rfl
    exact hsent.erase rfl rfl rfl

/-- The stop handler takes away the stop event and no timer. -/
theorem CmdInv.stopHandler (hi : CmdInv c) (hd : StopDistinct c) :
    CmdInv { c with em := c.em.stopHandler } where
  seqid_eq := hi.seqid_eq
  entry := by
    intro seqid st hf
    have he := hi.entry seqid st hf
    refine he.frame le_rfl he.issued_le ?_
    intro evt ht
    obtain ⟨hlook, hcb⟩ := he.lookup ht
    exact EventMachine.lookup_stopHandler.mpr ⟨hlook, hd.timer _ _ hlook (by simp [hcb])⟩
  timer := by
    intro fd evt seqid hlook hcb
    exact hi.timer fd evt seqid (EventMachine.lookup_stopHandler.mp hlook).1 hcb

theorem StopDistinct.stopHandler (h : StopDistinct c) :
    StopDistinct { c with em := c.em.stopHandler } := by
  refine ⟨h.fresh, ?_⟩
  intro fd evt hlook _
  exact (EventMachine.lookup_stopHandler.mp hlook).2

/-- The timer of a query in flight fires without a fault. -/
theorem CmdInv.timer_step {evt : Event CmdEvent} {seqid : UInt16} (hi : CmdInv c)
    (hlook : c.em.events.lookup evt.fd = some evt)
    (hcb : evt.callback = .user (.retryOperation seqid)) (hfd : fd ∉ c.em.events) :
    ∃ c' out, CmdStep c (.timer evt fd) out c' := by
  obtain ⟨-, st, hf, -⟩ := hi.timer _ evt seqid hlook hcb
  by_cases hmax : kMaxRetries ≤ st.retriesCount + 1
  · exact ⟨_, _, (CmdEffect.failed hlook hcb hfd hf hmax).step (by simp)⟩
  · have hlen := (hi.entry seqid st hf).payload_le
    exact ⟨_, _, (CmdEffect.retried hlook hcb hfd hf (by omega) hlen).step (by simp)⟩

/-- A dispatched entry is passed over, stops the machine, or fires the timer registered under it
now, whichever event was ready when the batch was polled. -/
theorem dispatch_cases (hi : CmdInv c) (hfd : fd ∉ c.em.events) (entry : Fd) :
    ∃ c' out, CmdLoop.dispatch c entry fd = .ok (c', out) ∧
      (c' = c ∧ out = [] ∨ c' = { c with em := c.em.stopHandler } ∧ out = [] ∨
        ∃ evt, evt.fd = entry ∧ CmdStep c (.timer evt fd) out c') := by
  cases hlook : c.em.events.lookup entry with
  | none =>
    refine ⟨c, [], ?_, Or.inl ⟨rfl, rfl⟩⟩
    simp only [CmdLoop.dispatch, hlook]
  | some evt =>
    cases hcb : evt.callback with
    | stop =>
      refine ⟨_, [], ?_, Or.inr (Or.inl ⟨rfl, rfl⟩)⟩
      simp only [CmdLoop.dispatch, hlook, hcb]
    | user k =>
      obtain ⟨seqid⟩ := k
      obtain ⟨rfl, -⟩ := hi.timer entry evt seqid hlook hcb
      obtain ⟨c', out, hs⟩ := hi.timer_step hlook hcb hfd
      refine ⟨c', out, ?_, Or.inr (Or.inr ⟨evt, rfl, hs⟩)⟩
      cases hs with
      | timer _ hcb' _ hfire =>
        cases hcb.symm.trans hcb'
        simp only [CmdLoop.dispatch, hlook, hcb]
        exact hfire

/-- The invariant of the client with its event thread. -/
structure CmdLoopInv (l : CmdLoop κ) : Prop where
  client : CmdInv l.client
  distinct : StopDistinct l.client

theorem cmdLoopInv_create (stopFd : Fd) : CmdLoopInv (CmdLoop.create stopFd : CmdLoop κ) := by
  refine ⟨cmdInv_create stopFd, Nat.zero_lt_one, ?_⟩
  intro fd evt hlook hcb
  change (EventMachine.create stopFd).events.lookup fd = some evt at hlook
  rw [EventMachine.lookup_create] at hlook
  split_ifs at hlook
  cases hlook
  exact (hcb rfl).elim

/-- The step of the client alone that a step of the loop amounts to. -/
inductive CmdLoop.Runs (l : CmdLoop κ) : CmdLoopAction κ → CmdAction κ → Prop
  | asyncQuery {qtype : CmdQueryType} {payload : List UInt8} {cb : Option κ} {fd : Fd} :
      Runs l (.asyncQuery qtype payload cb fd) (.asyncQuery qtype payload cb fd)
  | packetReceived {msg : List UInt8} : Runs l (.packetReceived msg) (.packetReceived msg)
  | dispatch {evt : Event CmdEvent} {rest : List Fd} {fd : Fd} :
      l.batch = evt.fd :: rest → Runs l (.dispatch fd) (.timer evt fd)

/-- What a step of the loop does to the client. -/
theorem CmdLoopStep.client_cases (hi : CmdLoopInv l) (hs : CmdLoopStep l a out l') :
    l'.client = l.client ∧ out = [] ∨
      l'.client = { l.client with em := l.client.em.stopHandler } ∧ out = [] ∨
      ∃ b, l.Runs a b ∧ CmdStep l.client b out l'.client := by
  obtain ⟨hen, hhandle⟩ := hs
  cases a with
  | asyncQuery qtype payload cb fd =>
    obtain ⟨⟨c, o⟩, hquery, hret⟩ := bind_eq_ok.mp hhandle
    cases hret
    exact Or.inr (Or.inr ⟨_, .asyncQuery, .asyncQuery hen hquery⟩)
  | packetReceived msg =>
    obtain ⟨⟨c, o⟩, hrec, hret⟩ := bind_eq_ok.mp hhandle
    cases hret
    exact Or.inr (Or.inr ⟨_, .packetReceived, .packetReceived hrec⟩)
  | poll triggered =>
    cases hhandle
    exact Or.inl ⟨rfl, rfl⟩
  | dispatch fd =>
    obtain ⟨hfd, hne⟩ := hen
    obtain ⟨entry, rest, hbatch⟩ := List.exists_cons_of_ne_nil hne
    obtain ⟨c, o, hdisp, hcases⟩ := dispatch_cases hi.client hfd entry
    simp only [CmdLoop.handle, hbatch, hdisp] at hhandle
    cases hhandle
    rcases hcases with hsame | hstop | ⟨evt, rfl, hstep⟩
    · exact Or.inl hsame
    · exact Or.inr (Or.inl hstop)
    · exact Or.inr (Or.inr ⟨_, .dispatch hbatch, hstep⟩)

theorem cmdLoopInv_step (hi : CmdLoopInv l) (hs : CmdLoopStep l a out l') : CmdLoopInv l' := by
  rcases hs.client_cases hi with ⟨hsame, -⟩ | ⟨hstop, -⟩ | ⟨b, -, hstep⟩
  · refine ⟨?_, ?_⟩ <;> rw [hsame]
    · exact hi.client
    · exact hi.distinct
  · refine ⟨?_, ?_⟩ <;> rw [hstop]
    · exact hi.client.stopHandler hi.distinct
    · exact hi.distinct.stopHandler
  · exact ⟨cmdInv_step hi.client hstep, hi.distinct.step hstep⟩

theorem cmdLoopInv_run {tr : CmdLoopTrace κ} (h : CmdLoopRun stopFd tr l) : CmdLoopInv l :=
  Steps.preserves h (cmdLoopInv_create stopFd) (fun _ _ _ _ hi hs => cmdLoopInv_step hi hs)

theorem timeoutOf_eq_some {seqid : UInt16} {evt : Event CmdEvent} :
    c.timeoutOf seqid = some evt ↔ ∃ st, c.findState seqid = some st ∧ st.timeoutEvt = some evt :=
  Option.bind_eq_some_iff

theorem CmdInv.timersMatch (hi : CmdInv c) : TimersMatch c where
  bijOn := by
    refine ⟨?_, ?_, ?_⟩
    · intro seqid hmem
      obtain ⟨st, hf⟩ := Option.isSome_iff_exists.mp hmem
      obtain ⟨evt, ht, hlook, hcb⟩ := (hi.entry seqid st hf).timer
      exact ⟨evt, ⟨⟨evt.fd, hlook⟩, by simp [hcb]⟩, (timeoutOf_eq_some.mpr ⟨st, hf, ht⟩).symm⟩
    · intro seqid hmem seqid' _ heq
      obtain ⟨st, hf⟩ := Option.isSome_iff_exists.mp hmem
      obtain ⟨evt, ht, -, hcb⟩ := (hi.entry seqid st hf).timer
      have hevt : c.timeoutOf seqid' = some evt :=
        heq.symm.trans (timeoutOf_eq_some.mpr ⟨st, hf, ht⟩)
      obtain ⟨st', hf', ht'⟩ := timeoutOf_eq_some.mp hevt
      have hcb' := ((hi.entry seqid' st' hf').lookup ht').2
      rw [hcb] at hcb'
      cases hcb'
      rfl
    · rintro _ ⟨evt, ⟨⟨fd, hlook⟩, hcb⟩, rfl⟩
      cases hk : evt.callback with
      | stop => exact (hcb hk).elim
      | user k =>
        obtain ⟨seqid⟩ := k
        obtain ⟨-, st, hf, ht⟩ := hi.timer fd evt seqid hlook hk
        exact ⟨seqid, Option.isSome_iff_exists.mpr ⟨st, hf⟩, timeoutOf_eq_some.mpr ⟨st, hf, ht⟩⟩
  retries := by
    intro seqid evt ht
    obtain ⟨st, hf, ht⟩ := timeoutOf_eq_some.mp ht
    exact ((hi.entry seqid st hf).lookup ht).2
  keyed := by
    intro fd evt hlook hcb
    cases hk : evt.callback with
    | stop => exact (hcb hk).elim
    | user k =>
      obtain ⟨seqid⟩ := k
      exact (hi.timer fd evt seqid hlook hk).1

/-- A 16-bit field is read or lies outside the received bytes. -/
theorem ofAccess_field {α : Type} {m : Cells} {i j : ℕ} {f : UInt8 → UInt8 → α} {e : Fault}
    (h : (do let hi ← load m i; let lo ← load m j; return f hi lo) = Except.error e) :
    e.ofAccess = true := by
  rcases bind_eq_error.mp h with h | ⟨hi, -, h⟩
  · exact ofAccess_load h
  · rcases bind_eq_error.mp h with h | ⟨lo, -, h⟩
    · exact ofAccess_load h
    · cases h

theorem ofAccess_payload {p : CmdPacket} {e : Fault} (h : p.payload = .error e) :
    e.ofAccess = true := by
  rcases bind_eq_error.mp h with h | ⟨n, -, h⟩
  · exact ofAccess_field h
  · exact ofAccess_loadRange h

theorem ofAccess_ackReply {p : CmdPacket} {type : CmdPacketType} {e : Fault}
    (h : (CmdClient.ackReply p type : Except Fault (List (CmdOutput κ))) = .error e) :
    e.ofAccess = true := by
  unfold CmdClient.ackReply at h
  split_ifs at h
  · rcases bind_eq_error.mp h with h | ⟨seqid, -, h⟩
    · exact ofAccess_field h
    · rcases bind_eq_error.mp h with h | ⟨qtype, -, h⟩
      · exact ofAccess_field h
      · rw [CmdClient.sendReplyAck_eq] at h
        cases h

/-- With a registered timer behind every query, receiving a packet can only fault by reading bytes
that were not sent. -/
theorem CmdInv.ofAccess_packetReceived {msg : List UInt8} {e : Fault} (hi : CmdInv c)
    (h : c.packetReceived msg = .error e) : e.ofAccess = true := by
  unfold CmdClient.packetReceived at h
  rcases bind_eq_error.mp h with h | ⟨pkt, -, h⟩
  · unfold CmdPacket.ofPacket at h
    split_ifs at h
    cases h
    rfl
  rcases bind_eq_error.mp h with h | ⟨type, -, h⟩
  · exact ofAccess_field h
  rcases bind_eq_error.mp h with h | ⟨acks, -, h⟩
  · exact ofAccess_ackReply h
  rcases bind_eq_error.mp h with h | ⟨seqid, -, h⟩
  · exact ofAccess_field h
  cases hf : c.findState seqid with
  | none =>
    rw [hf] at h
    cases h
  | some st =>
    simp only [hf] at h
    split_ifs at h
    · cases h
    · rcases bind_eq_error.mp h with h | ⟨c', -, h⟩
      · -- the timer that is cancelled is registered
        obtain ⟨evt, ht, hlook, -⟩ := (hi.entry seqid st hf).timer
        rw [CmdClient.cancelTimeout_eq_ok.mpr ⟨evt, evt, ht, hlook, rfl, rfl⟩] at h
        cases h
      · rcases bind_eq_error.mp h with h | ⟨repl, -, h⟩
        · unfold CmdClient.replyData at h
          split_ifs at h
          exact ofAccess_payload h
        · cases h
    · cases h
    · cases h

theorem CmdLoopInv.assertionsHold (hi : CmdLoopInv l) : AssertionsHold l where
  received := by
    intro msg
    have hacc : ∀ e, l.handle (.packetReceived msg) = .error e → e.ofAccess = true := by
      intro e h
      rcases bind_eq_error.mp h with h | ⟨r, -, h⟩
      · exact hi.client.ofAccess_packetReceived h
      · cases h
    constructor
    · intro h
      cases hacc _ h
    · intro h
      cases hacc _ h
  dispatched := by
    intro fd hen
    obtain ⟨entry, rest, hbatch⟩ := List.exists_cons_of_ne_nil hen.2
    obtain ⟨c, out, hdisp, -⟩ := dispatch_cases hi.client hen.1 entry
    refine ⟨⟨c, rest⟩, out, hen, ?_⟩
    simp only [CmdLoop.handle, hbatch, hdisp]
    rfl

/-- Queries in flight and registered timers correspond one to one between any two steps, so no
timer is cancelled or retried that is not there. -/
theorem queries_match_timers {tr : CmdLoopTrace κ} (h : CmdLoopRun stopFd tr l) :
    TimersMatch l.client ∧ AssertionsHold l :=
  ⟨(cmdLoopInv_run h).client.timersMatch, (cmdLoopInv_run h).assertionsHold⟩

/-- The theorem after a timer fired and was replaced, with its old descriptor still in the batch. -/
theorem queries_match_timers_stale : ∃ (tr : CmdLoopTrace ℕ) (l : CmdLoop ℕ),
    CmdLoopRun 3 tr l ∧ tr.map Prod.fst =
      [.asyncQuery .kGenericCommand [] none 5, .poll [5, 5], .dispatch 6] ∧
    TimersMatch l.client ∧ AssertionsHold l := by
  have hasync : (CmdClient.create 3 : CmdClient ℕ).asyncQuery .kGenericCommand [] none 5 = _ :=
    CmdClient.asyncQuery_eq_ok.mpr ⟨rfl, by decide, rfl, rfl⟩
  have hfree : 5 ∉ (CmdClient.create 3 : CmdClient ℕ).em.events := by decide
  have hquery : CmdLoopStep (CmdLoop.create 3)
      (.asyncQuery .kGenericCommand [] (none : Option ℕ) 5) _ ⟨_, []⟩ :=
    ⟨hfree, bind_eq_ok.mpr ⟨_, hasync, rfl⟩⟩
  have hpoll : ∀ c : CmdClient ℕ, CmdLoopStep ⟨c, []⟩ (.poll [5, 5]) [] ⟨c, [5, 5]⟩ :=
    fun _ => ⟨rfl, rfl⟩
  have hrun : CmdLoopRun 3 _ _ := (Steps.single hquery).snoc (hpoll _)
  obtain ⟨l', out, hstep⟩ := (queries_match_timers hrun).2.dispatched 6 ⟨by decide, by simp⟩
  exact ⟨_, _, hrun.snoc hstep, rfl, queries_match_timers (hrun.snoc hstep)⟩

end Pc2Drc
