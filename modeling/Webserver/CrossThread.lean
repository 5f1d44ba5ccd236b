import Webserver.ConnectionLife
import Webserver.OutputStream

namespace Webserver.CrossThread

open TcpConnection OutputStream
open ConnectionLife (Call Caller admits leaves applyCall finishCall)

variable {T P : Type} [DecidableEq T]

/-- A connection with the calls of other threads taken apart at each access to
state_ and at the push of their functor; destroying is set inside
connectDestroyed, after its test of state_, to what the test found. -/
structure Shared (T P : Type) where
  hosted : Hosted P
  callers : T → Caller
  destroying : Option Bool

/-- The events of the sockets come at any time that the loop thread is free. -/
inductive Event (T : Type)
  | test (t : T) (c : Call)
  | store (t : T)
  | finish (t : T)
  | loopCall (c : Call) (r : WriteResult)
  | functor (r : WriteResult)
  | delayedClose
  | readEvent (r : ReadResult)
  | writeEvent (r : WriteResult)
  | queueDestroyed
  | destroyInLoop
  | destroyEnd

def Shared.setCaller (t : T) (c : Caller) (s : Shared T P) : Shared T P :=
  { s with callers := Function.update s.callers t c }

def beginDestroyed (h : Hosted P) (s : Shared T P) : Shared T P :=
  { s with hosted := h, destroying := some (h.conn.state = .kConnected) }

def next (s : Shared T P) : Event T → Shared T P
  | .test t c => if admits s.hosted.conn.state c then s.setCaller t (.tested c) else s
  | .store t => match s.callers t with
    | .tested c => { s.setCaller t (.stored c) with hosted := setState .kDisconnecting s.hosted }
    | _ => s
  | .finish t => match s.callers t with
    | .tested c | .stored c => { s.setCaller t .idle with hosted := finishCall s.hosted c }
    | .idle => s
  | .loopCall c r => { s with hosted := applyCall true r s.hosted c }
  | .functor r => match s.hosted.pendingFunctors with
    | [] => s
    | .connectDestroyed :: fs => beginDestroyed { s.hosted with pendingFunctors := fs } s
    | f :: fs => { s with hosted := runFunctor r { s.hosted with pendingFunctors := fs } f }
  | .delayedClose => { s with hosted := forceClose { s.hosted with delayedCloses := s.hosted.delayedCloses - 1 } }
  | .readEvent r => { s with hosted := handleRead r s.hosted }
  | .writeEvent r => { s with hosted := handleWrite r s.hosted }
  | .queueDestroyed => { s with hosted := queueInLoop .connectDestroyed s.hosted }
  | .destroyInLoop => beginDestroyed s.hosted s
  | .destroyEnd => match s.destroying with
    | some connected =>
        { s with
          hosted := removeDestroyed (if connected then notifyDown s.hosted else s.hosted)
          destroying := none }
    | none => s

def Enabled (s : Shared T P) : Event T → Prop
  | .test t _ => (s.callers t).isIdle = true
  | .store t => (s.callers t).canStore = true
  | .finish t => (s.callers t).canFinish = true
  | .delayedClose => 0 < s.hosted.delayedCloses ∧ s.destroying = none
  | .destroyEnd => s.destroying.isSome = true
  | .queueDestroyed => True
  | .loopCall _ _ | .functor _ | .readEvent _ | .writeEvent _ | .destroyInLoop => s.destroying = none

instance (s : Shared T P) (e : Event T) : Decidable (Enabled s e) :=
  match e with
  | .test _ _ | .store _ | .finish _ | .destroyEnd => inferInstanceAs (Decidable (_ = true))
  | .delayedClose => inferInstanceAs (Decidable (_ ∧ _))
  | .queueDestroyed => .isTrue trivial
  | .loopCall _ _ | .functor _ | .readEvent _ | .writeEvent _ | .destroyInLoop =>
      inferInstanceAs (Decidable (s.destroying = none))

def start (self : P) (poller : EpollPoller P) (fd : Int) (callback : Bool) : Shared T P :=
  ⟨established self poller fd callback, fun _ => .idle, none⟩

section Output

structure Steady (h k : Hosted P) : Prop where
  state : k.conn.state = h.conn.state
  pending : ∃ ws, k.pendingFunctors = h.pendingFunctors ++ ws ∧ ∀ f ∈ ws, f = .writeCompleteCallback

theorem Steady.refl (h : Hosted P) : Steady h h := ⟨rfl, [], by simp, by simp⟩

theorem Steady.trans {h k l : Hosted P} (hk : Steady h k) (kl : Steady k l) : Steady h l := by
  obtain ⟨hs, vs, hv, hvs⟩ := hk
  obtain ⟨ks, ws, hw, hws⟩ := kl
  refine ⟨ks.trans hs, vs ++ ws, ?_, List.forall_mem_append.mpr ⟨hvs, hws⟩⟩
  rw [hw, hv, List.append_assoc]

theorem Steady.mem_pending {h k : Hosted P} (hk : Steady h k) {f : Functor} (hf : f ≠ .writeCompleteCallback) :
    f ∈ k.pendingFunctors ↔ f ∈ h.pendingFunctors := by
  obtain ⟨ws, hw, hws⟩ := hk.pending
  rw [hw, List.mem_append]
  exact ⟨fun hm => hm.resolve_right fun hm => hf (hws f hm), .inl⟩

theorem queueWriteComplete_steady (h : Hosted P) : Steady h (queueWriteComplete h) := by
  simp only [queueWriteComplete]
  split
  · exact ⟨rfl, [.writeCompleteCallback], rfl, by simp⟩
  · exact .refl h

theorem shutdownInLoop_steady (h : Hosted P) : Steady h (shutdownInLoop h) := by
  simp only [shutdownInLoop]
  split
  · exact .refl h
  · exact ⟨rfl, [], by simp [emit], by simp⟩

theorem directWrite_steady (data : List Byte) (r : WriteResult) (h : Hosted P) : Steady h (directWrite data r h).1 := by
  have he : ∀ n, Steady h (emit (.write data n) h) := fun n => ⟨rfl, [], by simp [emit], by simp⟩
  cases r with
  | failed e => exact he 0
  | wrote n =>
      simp only [directWrite]
      split
      · exact (he _).trans (queueWriteComplete_steady _)
      · exact he _

theorem bufferOutput_steady (rest : List Byte) (h : Hosted P) : Steady h (bufferOutput rest h) := by
  simp only [bufferOutput]
  split
  · exact ⟨rfl, [], by simp [setOutput], by simp⟩
  · exact ⟨rfl, [], by simp [setOutput, onChannel], by simp⟩

theorem sendInLoop_steady (data : List Byte) (r : WriteResult) (h : Hosted P) : Steady h (sendInLoop data r h) :=
  sendInLoop_rule (.refl h) (directWrite_steady data r h) fun rest k hk => hk.trans (bufferOutput_steady rest k)

theorem afterWrite_steady (n : Nat) (h : Hosted P) : Steady h (afterWrite n h) := by
  have ho : Steady h (setOutput (h.conn.outputBuffer.retrieve n) h) := ⟨rfl, [], by simp [setOutput], by simp⟩
  simp only [afterWrite]
  split
  · have hc : Steady h (onChannel Channel.disableWriting (setOutput (h.conn.outputBuffer.retrieve n) h)) :=
      ho.trans ⟨rfl, [], by simp [onChannel], by simp⟩
    have hq := hc.trans (queueWriteComplete_steady _)
    split
    · exact hq.trans (shutdownInLoop_steady _)
    · exact hq
  · exact ho

theorem handleWrite_steady (r : WriteResult) (h : Hosted P) : Steady h (handleWrite r h) := by
  have he : ∀ n, Steady h (emit (.write h.conn.outputBuffer.readable n) h) := fun n => ⟨rfl, [], by simp [emit], by simp⟩
  simp only [handleWrite]
  split
  · cases r with
    | failed e => exact he 0
    | wrote n =>
        simp only
        split
        · exact (he _).trans (afterWrite_steady _ _)
        · exact he _
  · exact .refl h

end Output

section Pushes

def Pushes (h k : Hosted P) : Prop :=
  ∃ ws, k.pendingFunctors = h.pendingFunctors ++ ws ∧ ∀ f ∈ ws, f = .writeCompleteCallback ∨ f = .forceCloseInLoop

theorem pushes_of_eq {h k : Hosted P} (hp : k.pendingFunctors = h.pendingFunctors) : Pushes h k :=
  ⟨[], by simp [hp], by simp⟩

theorem Steady.pushes {h k : Hosted P} (hk : Steady h k) : Pushes h k := by
  obtain ⟨ws, hw, hws⟩ := hk.pending
  exact ⟨ws, hw, fun f hf => .inl (hws f hf)⟩

theorem forceClose_pushes (h : Hosted P) : Pushes h (forceClose h) := by
  simp only [forceClose]
  split
  · exact ⟨[.forceCloseInLoop], rfl, by simp⟩
  · exact pushes_of_eq rfl

theorem handleRead_pushes (r : ReadResult) (h : Hosted P) : Pushes h (handleRead r h) := by
  cases r with
  | failed e => exact pushes_of_eq rfl
  | received bytes =>
      cases bytes with
      | nil => exact pushes_of_eq rfl
      | cons b bs => exact pushes_of_eq rfl

theorem notifyDestroyed_pushes (h : Hosted P) : Pushes h (notifyDestroyed h) := by
  simp only [notifyDestroyed]
  split
  · exact pushes_of_eq rfl
  · exact pushes_of_eq rfl

theorem runFunctor_pushes (r : WriteResult) (h : Hosted P) (f : Functor) : Pushes h (runFunctor r h f) := by
  cases f with
  | sendInLoop message => exact (sendInLoop_steady message r h).pushes
  | shutdownInLoop => exact (shutdownInLoop_steady h).pushes
  | forceCloseInLoop =>
      simp only [runFunctor, forceCloseInLoop]
      split
      · exact pushes_of_eq rfl
      · exact pushes_of_eq rfl
  | startReadInLoop =>
      simp only [runFunctor, startReadInLoop]
      split
      · exact pushes_of_eq rfl
      · exact pushes_of_eq rfl
  | stopReadInLoop =>
      simp only [runFunctor, stopReadInLoop]
      split
      · exact pushes_of_eq rfl
      · exact pushes_of_eq rfl
  | connectDestroyed =>
      obtain ⟨ws, hw, hws⟩ := notifyDestroyed_pushes h
      exact ⟨ws, hw, hws⟩
  | writeCompleteCallback => exact pushes_of_eq rfl

theorem loopCall_pushes (r : WriteResult) (h : Hosted P) (c : Call) : Pushes h (applyCall true r h c) := by
  cases c with
  | send message =>
      simp only [applyCall, send]
      split
      · exact runFunctor_pushes r h (.sendInLoop message)
      · exact pushes_of_eq rfl
  | shutdown =>
      simp only [applyCall, shutdown]
      split
      · exact runFunctor_pushes r (setState .kDisconnecting h) .shutdownInLoop
      · exact pushes_of_eq rfl
  | forceClose => exact forceClose_pushes h
  | forceCloseWithDelay =>
      simp only [applyCall, forceCloseWithDelay]
      split
      · exact pushes_of_eq rfl
      · exact pushes_of_eq rfl
  | startRead => exact runFunctor_pushes r h .startReadInLoop
  | stopRead => exact runFunctor_pushes r h .stopReadInLoop

end Pushes

end Webserver.CrossThread
