import Webserver.Bookkeeping
import Webserver.TcpConnection

namespace Webserver.ConnectionLife

open Runs Bookkeeping TcpConnection

variable {P : Type}

inductive Call
  | send (message : List Byte)
  | shutdown
  | forceClose
  | forceCloseWithDelay
  | startRead
  | stopRead

def applyCall (inLoop : Bool) (r : WriteResult) (h : Hosted P) : Call → Hosted P
  | .send message => send inLoop message r h
  | .shutdown => shutdown inLoop r h
  | .forceClose => forceClose h
  | .forceCloseWithDelay => forceCloseWithDelay h
  | .startRead => startRead inLoop r h
  | .stopRead => stopRead inLoop r h

/-- Where another thread is with its call: it has tested state_, or also set it. -/
inductive Caller
  | idle
  | tested (c : Call)
  | stored (c : Call)

def admits (st : StateE) : Call → Bool
  | .send _ | .shutdown => st = .kConnected
  | .forceClose | .forceCloseWithDelay => st = .kConnected ∨ st = .kDisconnecting
  | .startRead | .stopRead => true

def leaves : Call → Bool
  | .shutdown | .forceClose | .forceCloseWithDelay => true
  | .send _ | .startRead | .stopRead => false

def Caller.call : Caller → Option Call
  | .idle => none
  | .tested c | .stored c => some c

def Caller.isIdle : Caller → Bool
  | .idle => true
  | _ => false

def Caller.canStore : Caller → Bool
  | .tested c => leaves c
  | _ => false

def Caller.canFinish : Caller → Bool
  | .idle => false
  | .tested c => !leaves c
  | .stored _ => true

def finishCall (h : Hosted P) : Call → Hosted P
  | .send message => queueInLoop (.sendInLoop message) h
  | .shutdown => queueInLoop .shutdownInLoop h
  | .forceClose => queueInLoop .forceCloseInLoop h
  | .forceCloseWithDelay => { h with delayedCloses := h.delayedCloses + 1 }
  | .startRead => queueInLoop .startReadInLoop h
  | .stopRead => queueInLoop .stopReadInLoop h

theorem applyCall_outside (r : WriteResult) (h : Hosted P) (c : Call) : applyCall false r h c =
    if admits h.conn.state c then finishCall (if leaves c then setState .kDisconnecting h else h) c else h := by
  cases c with
  | send message => simp [applyCall, send, runInLoop, finishCall, admits, leaves]
  | shutdown => simp [applyCall, shutdown, runInLoop, finishCall, admits, leaves]
  | forceClose => simp [applyCall, forceClose, finishCall, admits, leaves]
  | forceCloseWithDelay =>
      simp only [applyCall, forceCloseWithDelay, finishCall, admits, leaves, if_true, decide_eq_true_eq]
      rfl
  | startRead | stopRead => rfl

/-- Where the loop is in connectDestroyed: past its test of state_, with what the
test found, or past its callback. -/
inductive Destroying
  | outside
  | tested (connected : Bool)
  | notified
deriving DecidableEq

/-- A connection and where its threads stand with it: the events that Poll has
reported for it and that are not dispatched yet, the calls of the other threads,
by their numbers, and the loop's connectDestroyed. -/
structure Life (P : Type) where
  hosted : Hosted P
  active : Option PollMask
  callers : Nat → Caller
  destroying : Destroying

/-- One step. A user call on the loop thread is made at any time, so also from
inside any callback. On another thread it is taken apart at each access to state_
and at the push of its functor. queueDestroyed and destroyInLoop are what the
server does: it queues connectDestroyed, or runs it at once on this loop's thread. -/
inductive Event (P : Type)
  | call (c : Call) (r : WriteResult)
  | test (t : Nat) (c : Call)
  | store (t : Nat)
  | finish (t : Nat)
  | functor (r : WriteResult)
  | delayedClose
  | poll (revents : PollMask)
  | readEvent (r : ReadResult)
  | writeEvent (r : WriteResult)
  | others (poller : EpollPoller P)
  | queueDestroyed
  | destroyInLoop
  | destroyNotify
  | destroyEnd

def Life.setCaller (t : Nat) (c : Caller) (s : Life P) : Life P :=
  { s with callers := Function.update s.callers t c }

def beginDestroyed (h : Hosted P) (s : Life P) : Life P :=
  { s with hosted := h, destroying := .tested (h.conn.state = .kConnected) }

def next (s : Life P) : Event P → Life P
  | .call c r => { s with hosted := applyCall true r s.hosted c }
  | .test t c => if admits s.hosted.conn.state c then s.setCaller t (.tested c) else s
  | .store t => match s.callers t with
    | .tested c => { s.setCaller t (.stored c) with hosted := setState .kDisconnecting s.hosted }
    | _ => s
  | .finish t => match s.callers t with
    | .tested c | .stored c => { s.setCaller t .idle with hosted := finishCall s.hosted c }
    | .idle => s
  | .functor r => match s.hosted.pendingFunctors with
    | [] => s
    | .connectDestroyed :: fs => beginDestroyed { s.hosted with pendingFunctors := fs } s
    | f :: fs => { s with hosted := runFunctor r { s.hosted with pendingFunctors := fs } f }
  | .delayedClose =>
      { s with hosted := forceClose { s.hosted with delayedCloses := s.hosted.delayedCloses - 1 } }
  | .poll revents =>
      { s with
        hosted := { s.hosted with
          conn := { s.hosted.conn with channel := s.hosted.conn.channel.setRevents revents } }
        active := some revents }
  | .readEvent r =>
      { s with hosted := handleRead r s.hosted, active := s.active.map (·.minus Channel.readBits) }
  | .writeEvent r => match s.active with
    | some revents =>
        { s with hosted := if revents.meets Channel.writeBits then handleWrite r s.hosted else s.hosted, active := none }
    | none => s
  | .others poller => { s with hosted := { s.hosted with poller := poller } }
  | .queueDestroyed => { s with hosted := queueInLoop .connectDestroyed s.hosted }
  | .destroyInLoop => beginDestroyed s.hosted s
  | .destroyNotify => match s.destroying with
    | .tested connected =>
        { s with hosted := if connected then notifyDown s.hosted else s.hosted, destroying := .notified }
    | .outside | .notified => s
  | .destroyEnd => match s.destroying with
    | .notified => { s with hosted := removeDestroyed s.hosted, destroying := .outside }
    | .outside | .tested _ => s

/-- When a step can happen. Functors run after all reported events are
dispatched; the kernel reports only what is registered; the other channels of
the loop leave this one's descriptor alone. -/
def Enabled (s : Life P) : Event P → Prop
  | .call _ _ => s.destroying = .outside ∨ s.destroying = .notified
  | .test t _ => (s.callers t).isIdle = true
  | .store t => (s.callers t).canStore = true
  | .finish t => (s.callers t).canFinish = true
  | .queueDestroyed => True
  | .functor _ => s.active = none ∧ s.destroying = .outside
  | .delayedClose => 0 < s.hosted.delayedCloses ∧ s.destroying = .outside
  | .poll revents => s.active = none ∧ s.destroying = .outside ∧
      ∃ mask, s.hosted.poller.kernel s.hosted.conn.channel.fd = some (mask, s.hosted.self) ∧
        revents.within (mask.union { PollMask.zero with pollerr := true, pollhup := true })
  | .readEvent _ => s.destroying = .outside ∧ ∃ revents, s.active = some revents ∧ revents.meets Channel.readBits = true
  | .writeEvent _ => s.destroying = .outside ∧ ∃ revents, s.active = some revents ∧ revents.meets Channel.readBits = false
  | .others poller =>
      poller.channels s.hosted.conn.channel.fd = s.hosted.poller.channels s.hosted.conn.channel.fd ∧
        poller.kernel s.hosted.conn.channel.fd = s.hosted.poller.kernel s.hosted.conn.channel.fd
  | .destroyInLoop => s.destroying = .outside
  | .destroyNotify => ∃ connected, s.destroying = .tested connected
  | .destroyEnd => s.destroying = .notified

def isCall : Event P → Bool
  | .call _ _ | .test _ _ | .store _ | .finish _ => true
  | _ => false

def isOutside : Event P → Bool
  | .test _ _ | .store _ | .finish _ => true
  | _ => false

/-- All that the steps of other threads can do to a connection. -/
theorem next_outside {R : Life P → Prop} {s : Life P} {e : Event P} (he : isOutside e = true)
    (hmoved : ∀ callers, R { s with callers })
    (hstored : ∀ callers, R { s with hosted := setState .kDisconnecting s.hosted, callers })
    (hfinished : ∀ c callers, R { s with hosted := finishCall s.hosted c, callers }) : R (next s e) := by
  cases e with
  | test t c =>
      simp only [next]
      split
      · exact hmoved _
      · exact hmoved s.callers
  | store t =>
      simp only [next]
      split
      · exact hstored _
      · exact hmoved s.callers
  | finish t =>
      simp only [next]
      split
      · exact hfinished _ _
      · exact hfinished _ _
      · exact hmoved s.callers
  | call | functor | delayedClose | poll | readEvent | writeEvent | others | queueDestroyed | destroyInLoop
  | destroyNotify | destroyEnd => cases he

def callSteps (t : Nat) (c : Call) (h : Hosted P) : List (Event P) :=
  if admits h.conn.state c then .test t c :: ((if leaves c then [.store t] else []) ++ [.finish t]) else [.test t c]

/-- The steps of another thread's call, with nothing between them, make up the function of the source. -/
theorem run_callSteps {t : Nat} (c : Call) (r : WriteResult) {s : Life P} (ht : s.callers t = .idle) :
    run next s (callSteps t c s.hosted) = { s with hosted := applyCall false r s.hosted c } := by
  have hback : ∀ x, Function.update (Function.update s.callers t x) t .idle = s.callers := by
    intro x
    rw [Function.update_idem, ← ht, Function.update_eq_self]
  rw [applyCall_outside]
  cases hadmits : admits s.hosted.conn.state c with
  | false => simp [callSteps, run, next, hadmits]
  | true =>
      cases hleaves : leaves c with
      | false => simp [callSteps, run, next, hadmits, hleaves, Life.setCaller, hback]
      | true => simp [callSteps, run, next, hadmits, hleaves, Life.setCaller, hback]

/-- A store of kDisconnecting that another thread, past its test of state_, makes
on a connection that is disconnected by then. -/
def Late (s : Life P) : Event P → Prop
  | .store _ => s.hosted.conn.state = .kDisconnected
  | _ => False

def Executes (s : Life P) (f : Functor) : Event P → Prop
  | .call .startRead _ => f = .startReadInLoop
  | .call .stopRead _ => f = .stopReadInLoop
  | .functor _ => s.hosted.pendingFunctors.head? = some f
  | .destroyInLoop => f = .connectDestroyed
  | _ => False

def start (self : P) (fd : Int) (callback : Bool) : Life P :=
  ⟨established self .construct fd callback, none, fun _ => .idle, .outside⟩

def isLife : Effect → Bool
  | .connectionCallback _ | .closeCallback | .enterHandleClose | .returnConnectDestroyed => true
  | _ => false

def lifeTrace (h : Hosted P) : List Effect := h.trace.filter isLife

theorem mem_lifeTrace {e : Effect} (he : isLife e = true) (h : Hosted P) : e ∈ lifeTrace h ↔ e ∈ h.trace := by
  simp [lifeTrace, he]

theorem count_lifeTrace {e : Effect} (he : isLife e = true) (h : Hosted P) : h.trace.count e = (lifeTrace h).count e :=
  (List.count_filter he).symm

theorem count_of_life {h k : Hosted P} {e : Effect} {l : List Effect} (he : isLife e = true) (hl : l.count e = 0)
    (hlife : lifeTrace k = lifeTrace h ++ l) : k.trace.count e = h.trace.count e := by
  rw [count_lifeTrace he, count_lifeTrace he, hlife, List.count_append, hl, Nat.add_zero]

def Returned (s : Life P) : Prop := .returnConnectDestroyed ∈ s.hosted.trace

theorem returned_iff (s : Life P) : Returned s ↔ .returnConnectDestroyed ∈ lifeTrace s.hosted :=
  (mem_lifeTrace rfl s.hosted).symm

end Webserver.ConnectionLife
