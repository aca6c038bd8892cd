import Mathlib.Data.List.AList
import Pc2Drc.Lib.Memory

/-! The event machine: a map from descriptors to the events it owns. -/
namespace Pc2Drc
open Lib

abbrev Fd := ℕ

/-- A closure held by an event: the machine's own stop handler, or one of its user's. -/
inductive Callback (κ : Type)
  | stop
  | user (k : κ)
  deriving DecidableEq, Repr

/-- An event never changes once built, so a pointer to one is its value; `ptr` is the identity
that a comparison of pointers sees. -/
structure Event (κ : Type) where
  ptr : ℕ
  fd : Fd
  readSize : ℕ
  callback : Callback κ
  deriving DecidableEq, Repr

structure EventMachine (κ : Type) where
  running : Bool
  events : AList fun _ : Fd => Event κ
  stopEvt : ℕ
  nextPtr : ℕ

namespace EventMachine

variable {κ : Type}

/-- `events_[fd].reset(evt)`: an event already stored under `fd` is destroyed. -/
def newEvent (em : EventMachine κ) (fd : Fd) (readSize : ℕ) (cb : Callback κ) :
    EventMachine κ × Event κ :=
  let evt : Event κ := ⟨em.nextPtr, fd, readSize, cb⟩
  ({ em with events := em.events.insert fd evt, nextPtr := em.nextPtr + 1 }, evt)

/-- The descriptor is the one `timerfd_create` returned. -/
def newTimerEvent (em : EventMachine κ) (fd : Fd) (cb : Callback κ) : EventMachine κ × Event κ :=
  em.newEvent fd 8 cb

/-- The descriptor is the one `eventfd` returned. -/
def newTriggerableEvent (em : EventMachine κ) (fd : Fd) (cb : Callback κ) :
    EventMachine κ × Event κ :=
  em.newEvent fd 8 cb

/-- The constructor: only the stop event is registered. -/
def create (stopFd : Fd) : EventMachine κ :=
  let (em, evt) := newTriggerableEvent
    { running := false, events := ∅, stopEvt := 0, nextPtr := 0 } stopFd .stop
  { em with stopEvt := evt.ptr }

/-- Reading `evt->fd` of a destroyed event has no meaning. -/
def cancelEvent (em : EventMachine κ) (evt : Event κ) : Except Fault (EventMachine κ) :=
  match em.events.lookup evt.fd with
  | none => .error .assertion
  | some e =>
    if e.ptr = evt.ptr then .ok { em with events := em.events.erase evt.fd }
    else .error .dangling

/-- The loop as it is written: the entries whose event is the stop event go, the others stay. -/
def clearUserEvents (em : EventMachine κ) : EventMachine κ :=
  { em with events :=
      ⟨em.events.entries.filter (fun e => e.2.ptr ≠ em.stopEvt),
        em.events.nodupKeys.sublist List.filter_sublist⟩ }

theorem lookup_create (stopFd fd : Fd) : (create stopFd : EventMachine κ).events.lookup fd =
    if fd = stopFd then some ⟨0, stopFd, 8, .stop⟩ else none := by
  by_cases h : fd = stopFd
  · subst h
    rw [if_pos rfl]
    exact AList.lookup_insert ∅
  · rw [if_neg h]
    exact AList.lookup_insert_ne h

/-- Only an event that is still registered can be cancelled. -/
theorem cancelEvent_eq_ok {em em' : EventMachine κ} {evt : Event κ} :
    em.cancelEvent evt = .ok em' ↔ ∃ e, em.events.lookup evt.fd = some e ∧ e.ptr = evt.ptr ∧
      em' = { em with events := em.events.erase evt.fd } := by
  unfold cancelEvent
  cases hlook : em.events.lookup evt.fd with
  | none => simp
  | some e =>
    by_cases hptr : e.ptr = evt.ptr
    · simp [hptr, eq_comm]
    · simp [hptr]

end EventMachine

end Pc2Drc
