import Mathlib.Logic.Basic

namespace Webserver

/-- The poll event bits that are set or tested somewhere in the source. -/
structure PollMask where
  pollin : Bool
  pollpri : Bool
  pollout : Bool
  pollrdhup : Bool
  pollerr : Bool
  pollhup : Bool
deriving DecidableEq

namespace PollMask

def zero : PollMask := ⟨false, false, false, false, false, false⟩

def union (a b : PollMask) : PollMask :=
  ⟨a.pollin || b.pollin, a.pollpri || b.pollpri, a.pollout || b.pollout,
    a.pollrdhup || b.pollrdhup, a.pollerr || b.pollerr, a.pollhup || b.pollhup⟩

def minus (a b : PollMask) : PollMask :=
  ⟨a.pollin && !b.pollin, a.pollpri && !b.pollpri, a.pollout && !b.pollout,
    a.pollrdhup && !b.pollrdhup, a.pollerr && !b.pollerr, a.pollhup && !b.pollhup⟩

def meets (a b : PollMask) : Bool :=
  (a.pollin && b.pollin) || (a.pollpri && b.pollpri) || (a.pollout && b.pollout) ||
    (a.pollrdhup && b.pollrdhup) || (a.pollerr && b.pollerr) || (a.pollhup && b.pollhup)

def within (a b : PollMask) : Prop := a.minus b = zero

instance (a b : PollMask) : Decidable (a.within b) := inferInstanceAs (Decidable (_ = _))

theorem zero_meets (b : PollMask) : zero.meets b = false := rfl

theorem within_not_meets {a b c : PollMask} (h : a.within b) (hb : b.meets c = false) :
    a.meets c = false := by
  obtain ⟨a₁, a₂, a₃, a₄, a₅, a₆⟩ := a
  obtain ⟨b₁, b₂, b₃, b₄, b₅, b₆⟩ := b
  obtain ⟨c₁, c₂, c₃, c₄, c₅, c₆⟩ := c
  simp only [within, minus, zero, meets, PollMask.mk.injEq, Bool.or_eq_false_iff] at h hb ⊢
  grind

theorem minus_not_meets (a b : PollMask) : (a.minus b).meets b = false := by
  simp only [minus, meets, Bool.or_eq_false_iff]
  grind

theorem union_meets_of_disjoint (a : PollMask) {b c : PollMask} (h : b.meets c = false) :
    (a.union b).meets c = a.meets c := by
  simp only [meets, Bool.or_eq_false_iff] at h
  simp only [union, meets]
  grind

theorem minus_meets_of_disjoint (a : PollMask) {b c : PollMask} (h : b.meets c = false) :
    (a.minus b).meets c = a.meets c := by
  simp only [meets, Bool.or_eq_false_iff] at h
  simp only [minus, meets]
  grind

end PollMask

inductive Index
  | kNew
  | kAdded
  | kDeleted
deriving DecidableEq

structure Channel where
  fd : Int
  events : PollMask
  revents : PollMask
  index : Index
deriving DecidableEq

namespace Channel

def kNonEvent : PollMask := .zero

def kReadEvent : PollMask := { PollMask.zero with pollin := true, pollpri := true }

def kWriteEvent : PollMask := { PollMask.zero with pollout := true }

def construct (fd : Int) : Channel := ⟨fd, .zero, .zero, .kNew⟩

def isWriting (c : Channel) : Bool := c.events.meets kWriteEvent

def isReading (c : Channel) : Bool := c.events.meets kReadEvent

def isNoneEvent (c : Channel) : Bool := c.events = kNonEvent

def setRevents (c : Channel) (revt : PollMask) : Channel := { c with revents := revt }

/-- The two tests of handleEventWithGuard. -/
def readBits : PollMask := { PollMask.zero with pollin := true, pollpri := true, pollrdhup := true }

def writeBits : PollMask := { PollMask.zero with pollout := true }

theorem union_kWriteEvent_meets (m : PollMask) : (m.union kWriteEvent).meets kWriteEvent = true := by
  simp [PollMask.union, PollMask.meets, kWriteEvent]

theorem isNoneEvent_iff (c : Channel) : c.isNoneEvent = true ↔ c.events = .zero :=
  decide_eq_true_iff

end Channel

end Webserver
