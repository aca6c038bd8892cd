import Pc2Drc.CmdPacket
import Pc2Drc.Events
import Pc2Drc.Lib.Run

/-! The command client: queries in flight, their retry timers, and one atomic step for each way
into the client. `κ` is the type of reply callbacks. -/
namespace Pc2Drc
open Lib

abbrev kMaxRetries : ℕ := 10

/-- The only closure the client registers: the retry of a sequence id. -/
inductive CmdEvent
  | retryOperation (seqid : UInt16)
  deriving DecidableEq, Repr

/-- `query` is not in the source: it is the number of the `AsyncQuery` call behind the entry. -/
structure CmdState (κ : Type) where
  state : CmdPacketType
  queryType : CmdQueryType
  replyCallback : Option κ
  queryPayload : List UInt8
  timeoutEvt : Option (Event CmdEvent)
  retriesCount : ℕ
  query : ℕ

/-- `issued` is not in the source: it counts the `AsyncQuery` calls. -/
structure CmdClient (κ : Type) where
  em : EventMachine CmdEvent
  seqid : UInt16
  cmdInFlight : AList fun _ : UInt16 => CmdState κ
  issued : ℕ

/-- What a step of the client shows: datagrams sent and callbacks invoked. An expired timer is
recorded with the query it belongs to. -/
inductive CmdOutput (κ : Type)
  | expired (query : ℕ)
  | query (query : ℕ) (bytes : List UInt8)
  | replyAck (bytes : List UInt8)
  | replyCallback (query : ℕ) (cb : κ) (success : Bool) (data : List UInt8)
  deriving DecidableEq, Repr

namespace CmdClient

variable {κ : Type}

/-- The client before its first query; its machine has only the stop event. -/
def create (stopFd : Fd) : CmdClient κ :=
  { em := .create stopFd, seqid := 0, cmdInFlight := ∅, issued := 0 }

def findState (c : CmdClient κ) (seqid : UInt16) : Option (CmdState κ) :=
  c.cmdInFlight.lookup seqid

def removeState (c : CmdClient κ) (seqid : UInt16) : CmdClient κ :=
  { c with cmdInFlight := c.cmdInFlight.erase seqid }

/-- Writing through the pointer to a state stores it back under its sequence id. -/
def storeState (c : CmdClient κ) (seqid : UInt16) (st : CmdState κ) : CmdClient κ :=
  { c with cmdInFlight := c.cmdInFlight.insert seqid st }

/-- `fd` is the descriptor the operating system gives to the new timer. -/
def sendQuery (c : CmdClient κ) (seqid : UInt16) (cmdSt : CmdState κ) (fd : Fd) :
    Except Fault (CmdClient κ × List (CmdOutput κ)) := do
  let pkt := ((CmdPacket.resetPacket.setPacketType .kQuery).setQueryType cmdSt.queryType).setSeqId
    seqid
  let pkt ← pkt.setPayload cmdSt.queryPayload
  let (em, evt) := c.em.newTimerEvent fd (.user (.retryOperation seqid))
  let st := { cmdSt with timeoutEvt := some evt, state := .kQueryAck }
  let bytes ← pkt.getBytes
  return ({ c with em := em }.storeState seqid st, [.query st.query bytes])

def sendReplyAck (seqid : UInt16) (qtype : CmdQueryType) : Except Fault (CmdOutput κ) := do
  let pkt := ((CmdPacket.resetPacket.setPacketType .kReplyAck).setQueryType qtype).setSeqId seqid
  return .replyAck (← pkt.getBytes)

def asyncQuery (c : CmdClient κ) (qtype : CmdQueryType) (payload : List UInt8) (cb : Option κ)
    (fd : Fd) : Except Fault (CmdClient κ × List (CmdOutput κ)) := do
  let seqid := c.seqid
  if (c.findState seqid).isSome then .error .assertion
  let st : CmdState κ :=
    { state := .kQuery, queryType := qtype, replyCallback := cb, queryPayload := payload,
      timeoutEvt := none, retriesCount := 0, query := c.issued }
  { c with seqid := c.seqid + 1, issued := c.issued + 1 }.sendQuery seqid st fd

/-- Invoking a callback that may be null. -/
def invoke (st : CmdState κ) (success : Bool) (data : List UInt8) : List (CmdOutput κ) :=
  match st.replyCallback with
  | none => []
  | some cb => [.replyCallback st.query cb success data]

/-- The payload is only read when there is a callback to give it to. -/
def replyData (st : CmdState κ) (payload : Except Fault (List UInt8)) :
    Except Fault (List UInt8) :=
  if st.replyCallback.isSome then payload else .ok []

def cancelTimeout (c : CmdClient κ) (st : CmdState κ) : Except Fault (CmdClient κ) :=
  match st.timeoutEvt with
  | none => .error .dangling
  | some evt => do return { c with em := ← c.em.cancelEvent evt }

/-- A reply is acknowledged whether or not it is delivered. -/
def ackReply (pkt : CmdPacket) (type : CmdPacketType) : Except Fault (List (CmdOutput κ)) :=
  if type = .kReply then do
    let ack ← sendReplyAck (← pkt.seqId) (← pkt.queryType)
    return [ack]
  else .ok []

def packetReceived (c : CmdClient κ) (msg : List UInt8) :
    Except Fault (CmdClient κ × List (CmdOutput κ)) := do
  let pkt ← CmdPacket.ofPacket msg
  let type ← pkt.packetType
  let acks ← ackReply pkt type
  let seqid ← pkt.seqId
  match c.findState seqid with
  | none => return (c, acks)
  | some st =>
    if type ≠ st.state then
      return (c, acks)
    else if type = .kReply then do
      let c ← c.cancelTimeout st
      let repl ← replyData st pkt.payload
      return (c.removeState seqid, acks ++ invoke st true repl)
    else if type = .kQueryAck then
      return (c.storeState seqid { st with state := .kReply }, acks)
    else
      return (c, acks)

def retryOperation (c : CmdClient κ) (seqid : UInt16) (fd : Fd) :
    Except Fault (CmdClient κ × List (CmdOutput κ)) :=
  match c.findState seqid with
  | none => .error .assertion
  | some st =>
    let st := { st with retriesCount := st.retriesCount + 1 }
    if kMaxRetries ≤ st.retriesCount then
      .ok (c.removeState seqid, .expired st.query :: invoke st false [])
    else do
      let (c, out) ← c.sendQuery seqid st fd
      return (c, .expired st.query :: out)

/-- `ProcessEvents` on a fired timer: its callback returns false, so the event is erased. -/
def timerFired (c : CmdClient κ) (evt : Event CmdEvent) (seqid : UInt16) (fd : Fd) :
    Except Fault (CmdClient κ × List (CmdOutput κ)) := do
  let (c, out) ← c.retryOperation seqid fd
  return ({ c with em := { c.em with events := c.em.events.erase evt.fd } }, out)

end CmdClient

/-- The ways into the client. A step that may create a timer names the descriptor it gets. -/
inductive CmdAction (κ : Type)
  | asyncQuery (qtype : CmdQueryType) (payload : List UInt8) (cb : Option κ) (fd : Fd)
  | packetReceived (msg : List UInt8)
  | timer (evt : Event CmdEvent) (fd : Fd)

/-- One atomic step. New timers get a descriptor that no registered event holds, and only a
registered timer fires. -/
inductive CmdStep {κ : Type} :
    CmdClient κ → CmdAction κ → List (CmdOutput κ) → CmdClient κ → Prop
  | asyncQuery {c c' : CmdClient κ} {qtype : CmdQueryType} {payload : List UInt8}
      {cb : Option κ} {fd : Fd} {out : List (CmdOutput κ)} :
      fd ∉ c.em.events → c.asyncQuery qtype payload cb fd = .ok (c', out) →
      CmdStep c (.asyncQuery qtype payload cb fd) out c'
  | packetReceived {c c' : CmdClient κ} {msg : List UInt8} {out : List (CmdOutput κ)} :
      c.packetReceived msg = .ok (c', out) → CmdStep c (.packetReceived msg) out c'
  | timer {c c' : CmdClient κ} {evt : Event CmdEvent} {seqid : UInt16} {fd : Fd}
      {out : List (CmdOutput κ)} :
      c.em.events.lookup evt.fd = some evt → evt.callback = .user (.retryOperation seqid) →
      fd ∉ c.em.events → c.timerFired evt seqid fd = .ok (c', out) →
      CmdStep c (.timer evt fd) out c'

abbrev CmdTrace (κ : Type) := List (CmdAction κ × List (CmdOutput κ))

/-- The runs of a client from its construction. -/
def CmdRun {κ : Type} (stopFd : Fd) (tr : CmdTrace κ) (c : CmdClient κ) : Prop :=
  Steps CmdStep (CmdClient.create stopFd) tr c

end Pc2Drc
