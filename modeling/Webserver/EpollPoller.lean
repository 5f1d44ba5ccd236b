import Mathlib.Logic.Function.Basic
import Webserver.Channel

namespace Webserver

variable {P : Type}

inductive CtlOp
  | add
  | mod
  | del
deriving DecidableEq

abbrev InterestSet (P : Type) := Int → Option (PollMask × P)

/-- ADD fails on a descriptor that is present, MOD and DEL on one that is absent. -/
def epollCtl (k : InterestSet P) (op : CtlOp) (fd : Int) (event : PollMask × P) : Option (InterestSet P) :=
  match op, k fd with
  | .add, none => some (Function.update k fd (some event))
  | .mod, some _ => some (Function.update k fd (some event))
  | .del, some _ => some (Function.update k fd none)
  | _, _ => none

/-- The poller of a loop, with the kernel's side of its epoll instance. P is the
type of Channel pointers; fatal tells that the LOG_FATAL of update was reached,
which aborts the process. -/
structure EpollPoller (P : Type) where
  channels : Int → Option P
  kernel : InterestSet P
  eventListSize : Nat
  fatal : Bool

namespace EpollPoller

def kInitEventListSize : Nat := 16

def construct : EpollPoller P := ⟨fun _ => none, fun _ => none, kInitEventListSize, false⟩

def update (operation : CtlOp) (self : P) (c : Channel) (p : EpollPoller P) : EpollPoller P :=
  match epollCtl p.kernel operation c.fd (c.events, self) with
  | some k => { p with kernel := k }
  | none => { p with fatal := true }

def updateChannel (self : P) (s : Channel × EpollPoller P) : Channel × EpollPoller P :=
  match s.1.index with
  | .kNew =>
      let p := { s.2 with channels := Function.update s.2.channels s.1.fd (some self) }
      let c := { s.1 with index := .kAdded }
      (c, update .add self c p)
  | .kDeleted =>
      let c := { s.1 with index := .kAdded }
      (c, update .add self c s.2)
  | .kAdded =>
      if s.1.isNoneEvent then ({ s.1 with index := .kDeleted }, update .del self s.1 s.2)
      else (s.1, update .mod self s.1 s.2)

def removeChannel (self : P) (s : Channel × EpollPoller P) : Channel × EpollPoller P :=
  let p := { s.2 with channels := Function.update s.2.channels s.1.fd none }
  ({ s.1 with index := .kNew }, if s.1.index = .kAdded then update .del self s.1 p else p)

def hasChannel [DecidableEq P] (p : EpollPoller P) (self : P) (c : Channel) : Bool :=
  p.channels c.fd = some self

def poll (ready : List (PollMask × P)) (p : EpollPoller P) : List P × EpollPoller P :=
  (ready.map Prod.snd,
    if 0 < ready.length ∧ ready.length = p.eventListSize then { p with eventListSize := p.eventListSize * 2 }
    else p)

/-- What epoll_wait can store: at most as many events as fit, each for a
registered descriptor, each with some bit set, and no bit that was not asked
for except the two that are always reported. -/
def Reported (p : EpollPoller P) (ready : List (PollMask × P)) : Prop :=
  ready.length ≤ p.eventListSize ∧ ∀ e ∈ ready, ∃ fd mask, p.kernel fd = some (mask, e.2) ∧
    e.1 ≠ .zero ∧ e.1.within (mask.union { PollMask.zero with pollerr := true, pollhup := true })

end EpollPoller

namespace Channel

open EpollPoller

def setEvents (f : PollMask → PollMask) (self : P) (s : Channel × EpollPoller P) :
    Channel × EpollPoller P :=
  updateChannel self ({ s.1 with events := f s.1.events }, s.2)

def enableReading (self : P) : Channel × EpollPoller P → Channel × EpollPoller P :=
  setEvents (fun m => m.union kReadEvent) self

def disableReading (self : P) : Channel × EpollPoller P → Channel × EpollPoller P :=
  setEvents (fun m => m.minus kReadEvent) self

def enableWriting (self : P) : Channel × EpollPoller P → Channel × EpollPoller P :=
  setEvents (fun m => m.union kWriteEvent) self

def disableWriting (self : P) : Channel × EpollPoller P → Channel × EpollPoller P :=
  setEvents (fun m => m.minus kWriteEvent) self

def disableAll (self : P) : Channel × EpollPoller P → Channel × EpollPoller P :=
  setEvents (fun _ => kNonEvent) self

def remove (self : P) : Channel × EpollPoller P → Channel × EpollPoller P := removeChannel self

end Channel

end Webserver
