import Mathlib.Data.Finset.Erase
import Mathlib.Data.Finset.Range
import Mathlib.Data.Finset.Card
import Pc2Drc.EventLoop

/-! The descriptors of a UDP server over its whole life: who opens them, who closes them, and which
events hold them. -/
namespace Pc2Drc
open Lib

/-- What happens to descriptors. `ours` tells the server and its events from other code; `started`
records after a start whether everything it needs is open and registered. -/
inductive FdEvent
  | opened (fd : Fd) (ours : Bool)
  | closed (fd : Fd)
  | started (ok : Bool)
  deriving DecidableEq, Repr

/-- The closures the server registers. -/
inductive UdpEvent
  | timeout
  | socket
  deriving DecidableEq, Repr

/-- `openFds` are all open descriptors of the process; a socket of `none` is -1. -/
structure UdpServer where
  openFds : Finset Fd
  em : EventMachine UdpEvent
  epollFd : Fd
  sockFd : Option Fd
  log : List FdEvent

/-- The operating system hands out the lowest descriptor that is not open; one of the first
`openFds.card + 1` is free. -/
def lowestFree (openFds : Finset Fd) : Fd :=
  ((List.range (openFds.card + 1)).find? (· ∉ openFds)).getD 0

namespace UdpServer

def openFd (u : UdpServer) (ours : Bool) : UdpServer × Fd :=
  let fd := lowestFree u.openFds
  ({ u with openFds := insert fd u.openFds, log := u.log ++ [.opened fd ours] }, fd)

def close (u : UdpServer) (fd : Fd) : UdpServer :=
  { u with openFds := u.openFds.erase fd, log := u.log ++ [.closed fd] }

/-- Events are destroyed one after another; each closes its descriptor. In which order a map
destroys its events is not specified; here it is the order of its entries. -/
def destroyEvents (u : UdpServer) (evts : List (Event UdpEvent)) : UdpServer :=
  evts.foldl (fun u evt => u.close evt.fd) u

/-- `events_[fd].reset(evt)` destroys the event that was there. -/
def newEvent (u : UdpServer) (fd : Fd) (readSize : ℕ) (cb : Callback UdpEvent) : UdpServer :=
  { u with em := (u.em.newEvent fd readSize cb).1 }.destroyEvents (u.em.events.lookup fd).toList

/-- The constructors, with other descriptors open already. -/
def create (openFds : Finset Fd) : UdpServer :=
  let u : UdpServer := ⟨openFds, ⟨false, ∅, 0, 0⟩, 0, none, []⟩
  let (u, epollFd) := u.openFd true
  let (u, stopFd) := { u with epollFd := epollFd }.openFd true
  u.newEvent stopFd 8 .stop

/-- The timer and the socket as the event thread registers them. -/
def initEvents (u : UdpServer) (sockFd : Fd) : UdpServer × Fd :=
  let (u, timerFd) := u.openFd true
  let u := u.newEvent timerFd 8 (.user .timeout)
  (u.newEvent sockFd 0 (.user .socket), timerFd)

/-- The descriptor is open and registered for a callback. -/
def holds (u : UdpServer) (fd : Fd) (cb : Callback UdpEvent) : Bool :=
  fd ∈ u.openFds ∧ (u.em.events.lookup fd).map (·.callback) = some cb

/-- The stop event is registered with an open descriptor. -/
def holdsStop (u : UdpServer) : Bool :=
  match u.em.stopFd? with
  | some fd => u.holds fd .stop
  | none => false

/-- Other code opens `n` descriptors. -/
def otherOpens (u : UdpServer) : ℕ → UdpServer
  | 0 => u
  | n + 1 => (u.openFd false).1.otherOpens n

/-- `Start` with a socket that is created and bound, and the event thread up to the point where it
waits; `others` descriptors are opened by other code before that thread gets to its first line.
Returns the socket and the timer as well. -/
def launch (u : UdpServer) (others : ℕ) : UdpServer × Fd × Fd :=
  let (u, sockFd) := u.openFd true
  let u := { u with sockFd := some sockFd, em := { u.em with running := true } }.otherOpens others
  let (u, timerFd) := u.initEvents sockFd
  (u, sockFd, timerFd)

def start (u : UdpServer) (others : ℕ) : UdpServer :=
  let (u, sockFd, timerFd) := u.launch others
  { u with log := u.log ++ [.started
      (u.holds sockFd (.user .socket) && u.holds timerFd (.user .timeout) && u.holdsStop)] }

/-- `StopEM` joins the event thread, which ends when the stop event's handler ran. Without that
event the trigger goes through a dangling pointer and the join waits for good. -/
def stopEM (u : UdpServer) : Except Fault UdpServer :=
  if u.em.running then
    match u.em.stopFd? with
    | some _ =>
      .ok ({ u with em := u.em.stopHandler }.destroyEvents
        ((u.em.events.entries.map Sigma.snd).filter fun evt => evt.ptr = u.em.stopEvt))
    | none => .error .dangling
  else .ok u

def closeSocket (u : UdpServer) : UdpServer :=
  match u.sockFd with
  | none => u
  | some fd => { u.close fd with sockFd := none }

def stop (u : UdpServer) : Except Fault UdpServer := do
  return (← u.stopEM).closeSocket

/-- The destructors: the server stops, then its base class closes the `epoll` descriptor, then the
map of events is destroyed. -/
def destroy (u : UdpServer) : Except Fault UdpServer := do
  let u := (← u.stop)
  let u := u.close u.epollFd
  return { u with em := { u.em with events := ∅ } }.destroyEvents
    (u.em.events.entries.map Sigma.snd)

end UdpServer

/-- What is done with a server; other code opens descriptors in between. -/
inductive UdpOp
  | start (others : ℕ)
  | stop
  | otherOpens (n : ℕ)
  deriving DecidableEq, Repr

def UdpServer.apply (u : UdpServer) : UdpOp → Except Fault UdpServer
  | .start others => .ok (u.start others)
  | .stop => u.stop
  | .otherOpens n => .ok (u.otherOpens n)

def UdpServer.run (u : UdpServer) : List UdpOp → Except Fault UdpServer
  | [] => .ok u
  | op :: ops => do (← u.apply op).run ops

/-- A whole life of a server. -/
def UdpServer.lifetime (openFds : Finset Fd) (ops : List UdpOp) : Except Fault UdpServer := do
  (← (UdpServer.create openFds).run ops).destroy

/-- Starts and stops alternate; `running` tells which of them is next. -/
def Alternates (running : Bool) : List UdpOp → Prop
  | [] => True
  | .otherOpens _ :: ops => Alternates running ops
  | .start _ :: ops => running = false ∧ Alternates true ops
  | .stop :: ops => running = true ∧ Alternates false ops

/-- A descriptor is open and ours after the given history. -/
def OpenOurs (fd : Fd) (log : List FdEvent) : Prop :=
  ∃ a b : List FdEvent, log = a ++ .opened fd true :: b ∧ .closed fd ∉ b

/-- The server's life ends without a fault; it closes only what it opened and has not closed
since; what it opened is closed once before the number is given out again; and after every start
the socket, the timer and the stop event are open and registered. -/
structure OwnsDescriptors (u : UdpServer) : Prop where
  own : ∀ (pre : List FdEvent) (fd : Fd) (post : List FdEvent),
    u.log = pre ++ .closed fd :: post → OpenOurs fd pre
  once : ∀ (pre : List FdEvent) (fd : Fd) (post : List FdEvent),
    u.log = pre ++ .opened fd true :: post →
    (post.takeWhile fun e => e ≠ .opened fd true ∧ e ≠ .opened fd false).count (.closed fd) = 1
  started : .started false ∉ u.log

namespace UdpServer

variable {u u' : UdpServer} {fd : Fd} {n : ℕ} {op : UdpOp} {ops : List UdpOp}

theorem lowestFree_notMem (openFds : Finset Fd) : lowestFree openFds ∉ openFds := by
  unfold lowestFree
  cases hfind : (List.range (openFds.card + 1)).find? (· ∉ openFds) with
  | some fd => simpa using List.find?_some hfind
  | none =>
    have hsub : Finset.range (openFds.card + 1) ⊆ openFds := by
      intro fd hfd
      simpa using List.find?_eq_none.mp hfind fd (List.mem_range.mpr (Finset.mem_range.mp hfd))
    have hcard := Finset.card_le_card hsub
    rw [Finset.card_range] at hcard
    omega

@[simp]
theorem destroyEvents_em (u : UdpServer) (evts : List (Event UdpEvent)) :
    (u.destroyEvents evts).em = u.em ∧ (u.destroyEvents evts).sockFd = u.sockFd ∧
      (u.destroyEvents evts).epollFd = u.epollFd := by
  induction evts generalizing u with
  | nil => exact ⟨rfl, rfl, rfl⟩
  | cons evt evts ih => exact ih (u.close evt.fd)

@[simp]
theorem destroyEvents_log (u : UdpServer) (evts : List (Event UdpEvent)) :
    (u.destroyEvents evts).log = u.log ++ evts.map fun evt => .closed evt.fd := by
  induction evts generalizing u with
  | nil => simp [destroyEvents]
  | cons evt evts ih =>
    rw [List.map_cons, List.append_cons]
    exact ih (u.close evt.fd)

/-- Other code leaves the server alone and opens descriptors that were not open. -/
theorem otherOpens_spec (u : UdpServer) (n : ℕ) :
    (u.otherOpens n).em = u.em ∧ (u.otherOpens n).sockFd = u.sockFd ∧
      (u.otherOpens n).epollFd = u.epollFd ∧ u.openFds ⊆ (u.otherOpens n).openFds ∧
      ∃ fds : List Fd, (∀ fd ∈ fds, fd ∉ u.openFds) ∧
        (u.otherOpens n).log = u.log ++ fds.map (FdEvent.opened · false) := by
  induction n generalizing u with
  | zero => exact ⟨rfl, rfl, rfl, Finset.Subset.refl _, [], by simp, by simp [otherOpens]⟩
  | succ n ih =>
    obtain ⟨hem, hsock, hepoll, hsub, fds, hnew, hlog⟩ := ih (u.openFd false).1
    have hsub' : u.openFds ⊆ (u.openFd false).1.openFds := Finset.subset_insert _ _
    refine ⟨hem, hsock, hepoll, hsub'.trans hsub, lowestFree u.openFds :: fds, ?_, ?_⟩
    · intro fd hfd
      rcases List.mem_cons.mp hfd with rfl | hfd
      · exact lowestFree_notMem _
      · exact fun hmem => hnew fd hfd (hsub' hmem)
    · rw [otherOpens, hlog]
      simp [openFd]

end UdpServer

end Pc2Drc
