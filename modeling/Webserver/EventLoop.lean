import Mathlib.Data.List.Basic

namespace Webserver

/-- Where the loop thread is. It runs callbacks of channels at handling and
functors at running; between entering and running it takes mutex_ for the swap. -/
inductive LoopPoint
  | outside
  | test
  | poll
  | handling
  | entering
  | running
deriving DecidableEq

/-- A loop with the local batch of doPendingFunctors. The eventfd is a counter;
woken says that wakeupChannel_ is among the active channels and not handled yet;
pushers and quitters count the other threads that have pushed, or set quit_, and
not called wakeup since. -/
structure EventLoop (F : Type) where
  point : LoopPoint
  quit : Bool
  callingPendingFunctors : Bool
  pendingFunctors : List F
  functors : List F
  eventfd : Nat
  woken : Bool
  pushers : Nat
  quitters : Nat

namespace EventLoop

variable {F : Type}

def construct : EventLoop F := ⟨.outside, false, false, [], [], 0, false, 0, 0⟩

def wakeup (l : EventLoop F) : EventLoop F := { l with eventfd := l.eventfd + 1 }

def handleRead (l : EventLoop F) : EventLoop F := { l with eventfd := 0, woken := false }

/-- queueInLoop. No other thread sees the loop thread between its push and its
wakeup, but all the others may come between the two. -/
def queueInLoop (inLoop : Bool) (cb : F) (l : EventLoop F) : EventLoop F :=
  let l := { l with pendingFunctors := l.pendingFunctors ++ [cb] }
  if inLoop then
    if l.callingPendingFunctors then wakeup l else l
  else { l with pushers := l.pushers + 1 }

def setQuit (inLoop : Bool) (l : EventLoop F) : EventLoop F :=
  if inLoop then { l with quit := true } else { l with quit := true, quitters := l.quitters + 1 }

def swapFunctors (l : EventLoop F) : EventLoop F :=
  { l with functors := l.pendingFunctors, pendingFunctors := l.functors, point := .running }

inductive Event (F : Type)
  | enterLoop
  | testQuit
  | pollReturn (woken : Bool)
  | handleRead
  | beginFunctors
  | swapFunctors
  | runFunctor
  | endFunctors
  | queueInLoop (inLoop : Bool) (cb : F)
  | quit (inLoop : Bool)
  | wakeup (pushed : Bool)

def next (l : EventLoop F) : Event F → EventLoop F
  | .enterLoop => { l with quit := false, point := .test }
  | .testQuit => { l with point := if l.quit then .outside else .poll }
  | .pollReturn woken => { l with point := .handling, woken := woken }
  | .handleRead => l.handleRead
  | .beginFunctors => { l with callingPendingFunctors := true, point := .entering }
  | .swapFunctors => l.swapFunctors
  | .runFunctor => { l with functors := l.functors.tail }
  | .endFunctors => { l with callingPendingFunctors := false, point := .test }
  | .queueInLoop inLoop cb => l.queueInLoop inLoop cb
  | .quit inLoop => l.setQuit inLoop
  | .wakeup true => { l.wakeup with pushers := l.pushers - 1 }
  | .wakeup false => { l.wakeup with quitters := l.quitters - 1 }

def UserCode (l : EventLoop F) : Prop := l.point = .outside ∨ l.point = .handling ∨ l.point = .running

def Enabled (l : EventLoop F) : Event F → Prop
  | .enterLoop => l.point = .outside
  | .testQuit => l.point = .test
  | .pollReturn woken => l.point = .poll ∧ (woken = true → 0 < l.eventfd)
  | .handleRead => l.point = .handling ∧ l.woken = true
  | .beginFunctors => l.point = .handling ∧ l.woken = false
  | .swapFunctors => l.point = .entering
  | .runFunctor => l.point = .running ∧ l.functors ≠ []
  | .endFunctors => l.point = .running ∧ l.functors = []
  | .queueInLoop inLoop _ => inLoop = true → l.UserCode
  | .quit inLoop => inLoop = true → l.UserCode
  | .wakeup true => 0 < l.pushers
  | .wakeup false => 0 < l.quitters

instance (l : EventLoop F) : Decidable l.UserCode := inferInstanceAs (Decidable (_ ∨ _))

instance (l : EventLoop F) (e : Event F) : Decidable (l.Enabled e) :=
  match e with
  | .enterLoop | .testQuit | .swapFunctors => inferInstanceAs (Decidable (l.point = _))
  | .pollReturn _ | .handleRead | .beginFunctors => inferInstanceAs (Decidable (_ ∧ _))
  | .runFunctor => inferInstanceAs (Decidable (l.point = _ ∧ ¬ l.functors = []))
  | .endFunctors => inferInstanceAs (Decidable (l.point = _ ∧ l.functors = []))
  | .queueInLoop inLoop _ | .quit inLoop => inferInstanceAs (Decidable (inLoop = true → l.UserCode))
  | .wakeup true => inferInstanceAs (Decidable (0 < l.pushers))
  | .wakeup false => inferInstanceAs (Decidable (0 < l.quitters))

theorem queueInLoop_frame (inLoop : Bool) (cb : F) (l : EventLoop F) :
    (l.queueInLoop inLoop cb).pendingFunctors = l.pendingFunctors ++ [cb] ∧
      (l.queueInLoop inLoop cb).functors = l.functors ∧ (l.queueInLoop inLoop cb).point = l.point := by
  simp only [queueInLoop]
  split
  · split
    · exact ⟨rfl, rfl, rfl⟩
    · exact ⟨rfl, rfl, rfl⟩
  · exact ⟨rfl, rfl, rfl⟩

theorem queueInLoop_flags (inLoop : Bool) (cb : F) (l : EventLoop F) :
    (l.queueInLoop inLoop cb).quit = l.quit ∧
      (l.queueInLoop inLoop cb).callingPendingFunctors = l.callingPendingFunctors := by
  simp only [queueInLoop]
  split
  · split
    · exact ⟨rfl, rfl⟩
    · exact ⟨rfl, rfl⟩
  · exact ⟨rfl, rfl⟩

theorem quit_next {l : EventLoop F} {e : Event F} (he : e ≠ .enterLoop) (hq : l.quit = true) :
    (l.next e).quit = true := by
  cases e with
  | enterLoop => exact absurd rfl he
  | queueInLoop inLoop cb => exact (queueInLoop_flags inLoop cb l).1.trans hq
  | quit inLoop => cases inLoop <;> rfl
  | wakeup pushed => cases pushed <;> exact hq
  | testQuit | pollReturn | handleRead | beginFunctors | swapFunctors | runFunctor | endFunctors => exact hq

end EventLoop

end Webserver
