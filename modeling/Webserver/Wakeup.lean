import Webserver.EventLoop
import Webserver.Runs

namespace Webserver.Wakeup

open Runs

variable {F : Type}

/-- What threads do with a loop. On the loop thread runInLoop calls the functor at
once, so that what the functor does are events of their own. -/
inductive Event (F : Type)
  | loop (e : EventLoop.Event F)
  | runInLoop (inLoop : Bool) (cb : F)

def runInLoop (inLoop : Bool) (cb : F) (l : EventLoop F) : EventLoop F :=
  if inLoop then l else l.queueInLoop false cb

def next (l : EventLoop F) : Event F → EventLoop F
  | .loop e => l.next e
  | .runInLoop inLoop cb => runInLoop inLoop cb l

def Enabled (l : EventLoop F) : Event F → Prop
  | .loop e => l.Enabled e
  | .runInLoop inLoop _ => inLoop = true → l.UserCode

instance (l : EventLoop F) (e : Event F) : Decidable (Enabled l e) :=
  match e with
  | .loop e => inferInstanceAs (Decidable (l.Enabled e))
  | .runInLoop inLoop _ => inferInstanceAs (Decidable (inLoop = true → l.UserCode))

/-- Poll returns at once, or will do so when a thread on its way to wakeup gets there. -/
def Awake (l : EventLoop F) : Prop := 0 < l.eventfd ∨ 0 < l.pushers

def NeverSleeps (l : EventLoop F) : Prop := l.point = .poll → l.pendingFunctors ≠ [] → Awake l

def pushesInLoop : Event F → Bool
  | .loop (.queueInLoop inLoop _) => inLoop
  | _ => false

/-- The loop thread pushes outside of loop() only onto a loop that is awake anyway. -/
def Prompt (l : EventLoop F) (e : Event F) : Prop := pushesInLoop e = true → l.point = .outside → Awake l

instance (l : EventLoop F) : Decidable (Awake l) := inferInstanceAs (Decidable (_ ∨ _))

instance (l : EventLoop F) : Decidable (NeverSleeps l) :=
  inferInstanceAs (Decidable (l.point = .poll → ¬ l.pendingFunctors = [] → Awake l))

instance (l : EventLoop F) (e : Event F) : Decidable (Prompt l e) :=
  inferInstanceAs (Decidable (pushesInLoop e = true → l.point = .outside → Awake l))

structure Inv (l : EventLoop F) : Prop where
  calling : l.point = .entering ∨ l.point = .running → l.callingPendingFunctors = true
  idle : l.point ≠ .running → l.functors = []
  awake : l.point ≠ .handling → l.point ≠ .entering → l.pendingFunctors ≠ [] → Awake l

theorem construct_inv : Inv (.construct : EventLoop F) := by
  refine ⟨?_, fun _ => rfl, fun _ _ h => absurd rfl h⟩
  simp [EventLoop.construct]

theorem queueInLoop_awake {l : EventLoop F} {inLoop : Bool} (cb : F) (h : inLoop = true → Awake l) :
    Awake (l.queueInLoop inLoop cb) := by
  cases inLoop with
  | false => exact .inr (Nat.succ_pos _)
  | true =>
      simp only [EventLoop.queueInLoop, if_true]
      split
      · exact .inl (Nat.succ_pos _)
      · exact h rfl

theorem queueInLoop_calling_awake {l : EventLoop F} (inLoop : Bool) (cb : F)
    (h : l.callingPendingFunctors = true) : Awake (l.queueInLoop inLoop cb) := by
  cases inLoop with
  | false => exact queueInLoop_awake cb (fun hf => by cases hf)
  | true =>
      simp only [EventLoop.queueInLoop, h, if_true]
      exact .inl (Nat.succ_pos _)

theorem queueInLoop_inv {l : EventLoop F} (h : Inv l) (inLoop : Bool) (cb : F)
    (hu : inLoop = true → l.UserCode) (hp : inLoop = true → l.point = .outside → Awake l) :
    Inv (l.queueInLoop inLoop cb) := by
  obtain ⟨_, hfun, hpoint⟩ := EventLoop.queueInLoop_frame inLoop cb l
  refine ⟨?_, ?_, ?_⟩
  · rw [hpoint, (EventLoop.queueInLoop_flags inLoop cb l).2]
    exact h.calling
  · rw [hpoint, hfun]
    exact h.idle
  · rw [hpoint]
    intro hh _ _
    by_cases hr : l.point = .running
    · exact queueInLoop_calling_awake inLoop cb (h.calling (.inr hr))
    · apply queueInLoop_awake cb
      intro hin
      apply hp hin
      rcases hu hin with ho | ho | ho
      · exact ho
      · exact absurd ho hh
      · exact absurd ho hr

theorem Inv.of_frame {l k : EventLoop F} (h : Inv l)
    (hcall : k.point = .entering ∨ k.point = .running → k.callingPendingFunctors = true)
    (hfun : k.point ≠ .running → k.functors = [])
    (hpoint : k.point ≠ .handling → k.point ≠ .entering → l.point ≠ .handling ∧ l.point ≠ .entering)
    (hpend : k.pendingFunctors = l.pendingFunctors) (hawake : Awake l → Awake k) : Inv k := by
  refine ⟨hcall, hfun, ?_⟩
  intro hh he hne
  obtain ⟨hlh, hle⟩ := hpoint hh he
  rw [hpend] at hne
  exact hawake (h.awake hlh hle hne)

theorem swapFunctors_inv {l : EventLoop F} (h : Inv l) (hp : l.point = .entering)
    (hcall : l.callingPendingFunctors = true) : Inv l.swapFunctors := by
  have hempty : l.functors = [] := h.idle (by simp [hp])
  exact ⟨fun _ => hcall, fun hn => absurd rfl hn, fun _ _ hne => absurd hempty hne⟩

theorem step_inv (l : EventLoop F) (e : Event F) (h : Inv l) (he : Enabled l e ∧ Prompt l e) : Inv (next l e) := by
  cases e with
  | runInLoop inLoop cb =>
      cases inLoop with
      | true => exact h
      | false => exact queueInLoop_inv h false cb (by simp) (by simp)
  | loop e =>
      obtain ⟨he, hc⟩ := he
      cases e with
      | enterLoop =>
          have hp : l.point = .outside := he
          refine h.of_frame (by simp [next, EventLoop.next]) (fun _ => h.idle (by simp [hp])) ?_ rfl id
          simp [hp]
      | testQuit =>
          have hp : l.point = .test := he
          refine h.of_frame ?_ (fun _ => h.idle (by simp [hp])) ?_ rfl id
          · simp only [next, EventLoop.next]
            split
            · simp
            · simp
          · simp [hp]
      | pollReturn woken =>
          have hp : l.point = .poll := he.1
          refine h.of_frame (by simp [next, EventLoop.next]) (fun _ => h.idle (by simp [hp])) ?_ rfl id
          simp [hp]
      | handleRead => exact ⟨h.calling, h.idle, fun hh => absurd he.1 hh⟩
      | beginFunctors =>
          have hp : l.point = .handling := he.1
          exact ⟨fun _ => rfl, fun _ => h.idle (by simp [hp]), fun _ hn => absurd rfl hn⟩
      | swapFunctors => exact swapFunctors_inv h he (h.calling (.inl he))
      | runFunctor =>
          have hp : l.point = .running := he.1
          exact ⟨h.calling, fun hn => absurd hp hn, h.awake⟩
      | endFunctors =>
          have hp : l.point = .running := he.1
          refine h.of_frame (by simp [next, EventLoop.next]) (fun _ => he.2) ?_ rfl id
          simp [hp]
      | queueInLoop inLoop cb => exact queueInLoop_inv h inLoop cb he hc
      | quit inLoop => cases inLoop <;> exact h.of_frame h.calling h.idle (fun hh hn => ⟨hh, hn⟩) rfl id
      | wakeup pushed =>
          cases pushed with
          | true => exact h.of_frame h.calling h.idle (fun hh hn => ⟨hh, hn⟩) rfl fun _ => .inl (Nat.succ_pos _)
          | false => exact h.of_frame h.calling h.idle (fun hh hn => ⟨hh, hn⟩) rfl fun _ => .inl (Nat.succ_pos _)

theorem push_outside_sleeps (l : EventLoop F) (cb : F) (hcall : l.callingPendingFunctors = false)
    (ha : ¬ Awake l) :
    ¬ NeverSleeps (run next l [.loop (.queueInLoop true cb), .loop .enterLoop, .loop .testQuit]) := by
  intro hs
  apply ha
  have hq : l.queueInLoop true cb = { l with pendingFunctors := l.pendingFunctors ++ [cb] } := by
    simp [EventLoop.queueInLoop, hcall]
  simpa [NeverSleeps, run, next, EventLoop.next, hq, Awake] using hs

end Webserver.Wakeup
