import Mathlib.Control.Basic
import Mathlib.Data.Option.Basic

/-! # Handlers and the poller

A `Handler` watches one file descriptor; `Watched` is what the poller's `handlerList_` and the
kernel's epoll set hold for that descriptor. `updateHandler` and `removeHandler` answer `none` where
an assertion fails or the process exits. `Handler.Agrees` relates the two sides; under it neither
ever fails. -/

namespace Httpancake

structure EventMask where
  epollin : Bool
  epollpri : Bool
  epollout : Bool
  epollerr : Bool
  epollhup : Bool
deriving DecidableEq, Repr

namespace EventMask

def none : EventMask := ⟨false, false, false, false, false⟩

def readEvent : EventMask := ⟨true, true, false, false, false⟩

def writeEvent : EventMask := ⟨false, false, true, false, false⟩

def union (a b : EventMask) : EventMask where
  epollin := a.epollin || b.epollin
  epollpri := a.epollpri || b.epollpri
  epollout := a.epollout || b.epollout
  epollerr := a.epollerr || b.epollerr
  epollhup := a.epollhup || b.epollhup

def diff (a b : EventMask) : EventMask where
  epollin := a.epollin && !b.epollin
  epollpri := a.epollpri && !b.epollpri
  epollout := a.epollout && !b.epollout
  epollerr := a.epollerr && !b.epollerr
  epollhup := a.epollhup && !b.epollhup

/-- What `epoll_wait` may report for a registered mask: errors and hang-ups always. -/
def Reportable (revents interest : EventMask) : Prop :=
  (revents.epollin → interest.epollin) ∧ (revents.epollpri → interest.epollpri) ∧
    (revents.epollout → interest.epollout)

instance (revents interest : EventMask) : Decidable (revents.Reportable interest) :=
  inferInstanceAs (Decidable (_ ∧ _ ∧ _))

end EventMask

inductive HandlerState where
  | new | using_ | deleted
deriving DecidableEq, Repr

structure Handler where
  events : EventMask
  state : HandlerState
deriving DecidableEq, Repr

/-- `handlerList_[fd]`, as the identity of the handler, and the mask in the epoll set. -/
structure Watched where
  handler : Option Nat
  interest : Option EventMask
deriving DecidableEq, Repr

/-- A call that `Handler::handleEvents` makes. -/
inductive EventCallback where
  | closeCb | errorCb | readCb | writeCb
deriving DecidableEq, Repr

namespace Handler

def fresh : Handler := ⟨.none, .new⟩

def isWriting (h : Handler) : Bool := h.events.epollout

/-- `this` is the identity of the handler. -/
def updateHandler (this : Nat) (h : Handler) (w : Watched) : Option (Handler × Watched) :=
  match h.state with
  | .new => do
    guard (w.handler = none)
    -- `EPOLL_CTL_ADD` fails on a descriptor that is in the set
    guard (w.interest = none)
    return ({ h with state := .using_ }, ⟨some this, some h.events⟩)
  | .deleted => do
    guard (w.handler = some this)
    guard (w.interest = none)
    return ({ h with state := .using_ }, ⟨some this, some h.events⟩)
  | .using_ => do
    guard (w.handler = some this)
    -- `EPOLL_CTL_DEL` and `EPOLL_CTL_MOD` fail on a descriptor that is not
    guard (w.interest ≠ none)
    if h.events = .none then
      return ({ h with state := .deleted }, { w with interest := none })
    else
      return (h, { w with interest := some h.events })

def removeHandler (this : Nat) (h : Handler) (w : Watched) : Option (Handler × Watched) := do
  guard (w.handler = some this)
  guard (h.events = .none)
  if h.state = .using_ then
    guard (w.interest ≠ none)
    return ({ h with state := .new }, ⟨none, none⟩)
  else
    return ({ h with state := .new }, { w with handler := none })

/-- `handleEvents` with all four callbacks set. -/
def handleEvents (revents : EventMask) : List EventCallback :=
  (if revents.epollhup && !revents.epollin then [.closeCb] else []) ++
    (if revents.epollerr then [.errorCb] else []) ++
    (if revents.epollin || revents.epollpri || revents.epollhup then [.readCb] else []) ++
    (if revents.epollout then [.writeCb] else [])

/-- A handler is listed once it was updated, and in the epoll set with its events while in use. -/
structure Agrees (this : Nat) (h : Handler) (w : Watched) : Prop where
  listed : w.handler = if h.state = .new then none else some this
  interest : w.interest = if h.state = .using_ then some h.events else none

variable {this : Nat} {h : Handler} {w : Watched}

theorem Agrees.fresh (this : Nat) : Handler.fresh.Agrees this ⟨none, none⟩ := ⟨rfl, rfl⟩

/-- A handler in use that has no events any more leaves the epoll set; any other is in it with its
events. -/
theorem Agrees.update_eq (hw : h.Agrees this w) (events : EventMask) :
    updateHandler this { h with events := events } w = some
      (if h.state = .using_ ∧ events = .none then (⟨events, .deleted⟩, ⟨some this, none⟩)
        else (⟨events, .using_⟩, ⟨some this, some events⟩)) := by
  obtain ⟨ev, state⟩ := h
  obtain ⟨listed, interest⟩ := w
  obtain ⟨hlisted, hinterest⟩ := hw
  cases state with
  | new =>
    obtain rfl : listed = none := hlisted
    obtain rfl : interest = none := hinterest
    rfl
  | deleted =>
    obtain rfl : listed = some this := hlisted
    obtain rfl : interest = none := hinterest
    simp [updateHandler]
  | using_ =>
    obtain rfl : listed = some this := hlisted
    obtain rfl : interest = some ev := hinterest
    by_cases hev : events = .none <;> simp [updateHandler, hev]

/-- Changing the events and updating always succeeds. -/
theorem Agrees.update (hw : h.Agrees this w) (events : EventMask) :
    ∃ h' w', updateHandler this { h with events := events } w = some (h', w') ∧
      h'.Agrees this w' ∧ h'.events = events ∧ h'.state ≠ .new := by
  rw [hw.update_eq]
  split
  · exact ⟨_, _, rfl, ⟨rfl, rfl⟩, rfl, nofun⟩
  · exact ⟨_, _, rfl, ⟨rfl, rfl⟩, rfl, nofun⟩

/-- Removing a listed handler without events succeeds. -/
theorem Agrees.remove (hw : h.Agrees this w) (hstate : h.state ≠ .new) (hev : h.events = .none) :
    ∃ h' w', removeHandler this h w = some (h', w') ∧ h'.Agrees this w' ∧ h'.events = .none := by
  obtain ⟨ev, state⟩ := h
  obtain ⟨listed, interest⟩ := w
  obtain ⟨hlisted, hinterest⟩ := hw
  obtain rfl : ev = .none := hev
  cases state with
  | new => exact absurd rfl hstate
  | deleted =>
    obtain rfl : listed = some this := hlisted
    obtain rfl : interest = none := hinterest
    exact ⟨⟨.none, .new⟩, ⟨none, none⟩, by simp [removeHandler], ⟨rfl, rfl⟩, rfl⟩
  | using_ =>
    obtain rfl : listed = some this := hlisted
    obtain rfl : interest = some .none := hinterest
    exact ⟨⟨.none, .new⟩, ⟨none, none⟩, by simp [removeHandler], ⟨rfl, rfl⟩, rfl⟩

end Handler
end Httpancake
