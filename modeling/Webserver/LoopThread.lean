import Webserver.EventLoop
import Webserver.Runs

namespace Webserver

/-- Where the owner is: about to call startLoop, in its wait for loop_, free to be
destroyed, in ~EventLoopThread before quit(), before the wakeup of quit(), in
join, or at the end. -/
inductive OwnerPoint
  | created
  | waiting
  | started
  | quitting
  | waking
  | joining
  | destroyed
deriving DecidableEq

inductive ThreadPoint
  | notStarted
  | initializing
  | published
  | looping
  | returned
  | ended
deriving DecidableEq

/-- An EventLoopThread with the loop on its thread's stack; loop_ is here whether
the pointer is set. The last field counts the Polls begun since quit() has set
quit_, with the one that the loop thread may have been about to begin. -/
structure EventLoopThread (F : Type) where
  owner : OwnerPoint
  thread : ThreadPoint
  published : Bool
  loop : EventLoop F
  furtherPolls : Nat

namespace EventLoopThread

variable {F : Type}

def construct : EventLoopThread F := ⟨.created, .notStarted, false, .construct, 0⟩

inductive Event (F : Type)
  | startLoop
  | startLoopReturn
  | destroy
  | quit
  | wakeup
  | join
  | publish
  | loop (e : EventLoop.Event F)
  | clear

def QuitCalled (s : EventLoopThread F) : Prop :=
  s.owner = .waking ∨ s.owner = .joining ∨ s.owner = .destroyed

instance (s : EventLoopThread F) : Decidable s.QuitCalled := inferInstanceAs (Decidable (_ ∨ _))

def threadAfter (s : EventLoopThread F) : EventLoop.Event F → ThreadPoint
  | .enterLoop => .looping
  | .testQuit => if s.loop.quit then .returned else s.thread
  | _ => s.thread

def pollsBegun (s : EventLoopThread F) : EventLoop.Event F → Nat
  | .testQuit => if s.loop.quit then 0 else 1
  | _ => 0

def next (s : EventLoopThread F) : Event F → EventLoopThread F
  | .startLoop => { s with owner := .waiting, thread := .initializing }
  | .startLoopReturn => { s with owner := .started }
  | .destroy => { s with owner := if s.published then .quitting else .destroyed }
  | .quit =>
      { s with
        owner := .waking
        loop := s.loop.next (.quit false)
        furtherPolls := if s.loop.point = .poll then 1 else 0 }
  | .wakeup => { s with owner := .joining, loop := s.loop.next (.wakeup false) }
  | .join => { s with owner := .destroyed }
  | .publish => { s with thread := .published, published := true }
  | .loop e =>
      { s with
        thread := s.threadAfter e
        loop := s.loop.next e
        furtherPolls := s.furtherPolls + if s.QuitCalled then s.pollsBegun e else 0 }
  | .clear => { s with thread := .ended, published := false }

def Hosts (s : EventLoopThread F) : EventLoop.Event F → Prop
  | .enterLoop => s.thread = .published
  | .queueInLoop true _ | .quit true => s.thread = .initializing ∨ s.thread = .looping
  | .queueInLoop false _ | .quit false | .wakeup _ => s.thread ≠ .notStarted ∧ s.thread ≠ .ended
  | _ => s.thread = .looping

def Enabled (s : EventLoopThread F) : Event F → Prop
  | .startLoop => s.owner = .created
  | .startLoopReturn => s.owner = .waiting ∧ s.published = true
  | .destroy => s.owner = .started
  | .quit => s.owner = .quitting
  | .wakeup => s.owner = .waking ∧ s.loop.Enabled (.wakeup false)
  | .join => s.owner = .joining ∧ s.thread = .ended
  | .publish => s.thread = .initializing
  | .loop e => s.Hosts e ∧ s.loop.Enabled e
  | .clear => s.thread = .returned

instance (s : EventLoopThread F) (e : EventLoop.Event F) : Decidable (s.Hosts e) :=
  match e with
  | .queueInLoop true _ | .quit true => inferInstanceAs (Decidable (_ ∨ _))
  | .queueInLoop false _ | .quit false | .wakeup _ =>
      inferInstanceAs (Decidable (¬ s.thread = .notStarted ∧ ¬ s.thread = .ended))
  | .enterLoop | .testQuit | .pollReturn _ | .handleRead | .beginFunctors | .swapFunctors | .runFunctor | .endFunctors =>
      inferInstanceAs (Decidable (s.thread = _))

instance (s : EventLoopThread F) (e : Event F) : Decidable (s.Enabled e) :=
  match e with
  | .startLoop | .destroy | .quit => inferInstanceAs (Decidable (s.owner = _))
  | .startLoopReturn | .wakeup | .join | .loop _ => inferInstanceAs (Decidable (_ ∧ _))
  | .publish | .clear => inferInstanceAs (Decidable (s.thread = _))

end EventLoopThread

namespace LoopThread

open Runs EventLoopThread

variable {F : Type}

structure Inv (s : EventLoopThread F) : Prop where
  created : s.owner = .created → s.thread = .notStarted
  fresh : s.thread = .notStarted ∨ s.thread = .initializing ∨ s.thread = .published →
    s.loop.point = .outside ∧ s.loop.functors = []
  pointer : s.published = true → s.thread ≠ .notStarted ∧ s.thread ≠ .initializing
  owner : s.owner ≠ .created → s.owner ≠ .waiting → s.thread ≠ .notStarted ∧ s.thread ≠ .initializing

theorem construct_inv : Inv (.construct : EventLoopThread F) := by
  refine ⟨fun _ => rfl, fun _ => ⟨rfl, rfl⟩, ?_, ?_⟩
  · simp [EventLoopThread.construct]
  · simp [EventLoopThread.construct]

theorem called_frame (l : EventLoop F) {e : EventLoop.Event F}
    (he : (∃ inLoop cb, e = .queueInLoop inLoop cb) ∨ (∃ inLoop, e = .quit inLoop) ∨ ∃ pushed, e = .wakeup pushed) :
    (l.next e).point = l.point ∧ (l.next e).functors = l.functors := by
  rcases he with ⟨inLoop, cb, rfl⟩ | ⟨inLoop, rfl⟩ | ⟨pushed, rfl⟩
  · obtain ⟨_, hfun, hpoint⟩ := EventLoop.queueInLoop_frame inLoop cb l
    exact ⟨hpoint, hfun⟩
  · cases inLoop <;> exact ⟨rfl, rfl⟩
  · cases pushed <;> exact ⟨rfl, rfl⟩

theorem Inv.entered {s t : EventLoopThread F} (h : Inv s) (hs : s.thread = .published ∨ s.thread = .looping)
    (ht : t.thread = .looping ∨ t.thread = .returned) (howner : t.owner = s.owner) : Inv t := by
  refine ⟨fun hc => ?_, ?_, fun _ => ?_, fun _ _ => ?_⟩
  · have hn := h.created (howner ▸ hc)
    rcases hs with hs | hs <;> simp [hn] at hs
  · rcases ht with ht | ht <;> simp [ht]
  · rcases ht with ht | ht <;> simp [ht]
  · rcases ht with ht | ht <;> simp [ht]

theorem Inv.called {s t : EventLoopThread F} (h : Inv s) (hthread : t.thread = s.thread)
    (howner : t.owner = s.owner) (hpub : t.published = s.published)
    (hl : t.loop.point = s.loop.point ∧ t.loop.functors = s.loop.functors) : Inv t := by
  refine ⟨?_, ?_, ?_, ?_⟩
  · rw [howner, hthread]
    exact h.created
  · rw [hthread, hl.1, hl.2]
    exact h.fresh
  · rw [hpub, hthread]
    exact h.pointer
  · rw [howner, hthread]
    exact h.owner

theorem loop_inv {s : EventLoopThread F} {e : EventLoop.Event F} (h : Inv s) (he : s.Hosts e) :
    Inv (s.next (.loop e)) := by
  cases e with
  | enterLoop => exact h.entered (.inl he) (.inl rfl) rfl
  | testQuit =>
      refine h.entered (.inr he) ?_ rfl
      simp only [next, threadAfter]
      split
      · exact .inr rfl
      · exact .inl he
  | queueInLoop inLoop cb => exact h.called rfl rfl rfl (called_frame s.loop (.inl ⟨inLoop, cb, rfl⟩))
  | quit inLoop => exact h.called rfl rfl rfl (called_frame s.loop (.inr (.inl ⟨inLoop, rfl⟩)))
  | wakeup pushed => exact h.called rfl rfl rfl (called_frame s.loop (.inr (.inr ⟨pushed, rfl⟩)))
  | pollReturn | handleRead | beginFunctors | swapFunctors | runFunctor | endFunctors =>
      exact h.entered (.inr he) (.inl he) rfl

theorem Inv.moved {s t : EventLoopThread F} (h : Inv s) (ht : t.owner ≠ .created)
    (hs : s.thread ≠ .notStarted ∧ s.thread ≠ .initializing) (hthread : t.thread = s.thread)
    (hpub : t.published = s.published)
    (hl : t.loop.point = s.loop.point ∧ t.loop.functors = s.loop.functors) : Inv t := by
  refine ⟨fun hc => absurd hc ht, ?_, ?_, ?_⟩
  · rw [hthread, hl.1, hl.2]
    exact h.fresh
  · rw [hpub, hthread]
    exact h.pointer
  · rw [hthread]
    exact fun _ _ => hs

theorem step_inv (s : EventLoopThread F) (e : Event F) (h : Inv s) (he : s.Enabled e) : Inv (s.next e) := by
  cases e with
  | startLoop =>
      have hn := h.created he
      refine ⟨?_, fun _ => h.fresh (.inl hn), ?_, ?_⟩
      · simp [next]
      · exact fun hp => absurd hn (h.pointer hp).1
      · simp [next]
  | startLoopReturn => exact h.moved (by simp [next]) (h.pointer he.2) rfl rfl ⟨rfl, rfl⟩
  | destroy =>
      have hp : s.owner = .started := he
      refine h.moved ?_ (h.owner (by simp [hp]) (by simp [hp])) rfl rfl ⟨rfl, rfl⟩
      simp only [next]
      split <;> simp
  | quit =>
      have hp : s.owner = .quitting := he
      exact h.moved (by simp [next]) (h.owner (by simp [hp]) (by simp [hp])) rfl rfl ⟨rfl, rfl⟩
  | wakeup =>
      have hp : s.owner = .waking := he.1
      exact h.moved (by simp [next]) (h.owner (by simp [hp]) (by simp [hp])) rfl rfl ⟨rfl, rfl⟩
  | join =>
      have hp : s.owner = .joining := he.1
      exact h.moved (by simp [next]) (h.owner (by simp [hp]) (by simp [hp])) rfl rfl ⟨rfl, rfl⟩
  | publish =>
      have hp : s.thread = .initializing := he
      refine ⟨fun hc => ?_, fun _ => h.fresh (.inr (.inl he)), ?_, ?_⟩
      · have hn : s.thread = .notStarted := h.created hc
        simp [hp] at hn
      · simp [next]
      · simp [next]
  | loop e => exact loop_inv h he.1
  | clear =>
      have hp : s.thread = .returned := he
      refine ⟨fun hc => ?_, ?_, ?_, ?_⟩
      · have hn : s.thread = .notStarted := h.created hc
        simp [hp] at hn
      · simp [next]
      · simp [next]
      · simp [next]

structure Stopping (s : EventLoopThread F) : Prop where
  owner : s.owner ≠ .created
  thread : s.thread = .looping ∨ s.thread = .returned ∨ s.thread = .ended
  quit : s.loop.quit = true
  polls : s.furtherPolls ≤ 1

theorem Stopping.step {s : EventLoopThread F} {e : Event F} (h : Stopping s) (he : s.Enabled e) :
    Stopping (s.next e) := by
  have hbefore : s.thread ≠ .notStarted ∧ s.thread ≠ .initializing ∧ s.thread ≠ .published := by
    rcases h.thread with ht | ht | ht <;> simp [ht]
  cases e with
  | startLoop => exact absurd he h.owner
  | startLoopReturn => exact ⟨by simp [next], h.thread, h.quit, h.polls⟩
  | destroy =>
      refine ⟨?_, h.thread, h.quit, h.polls⟩
      simp only [next]
      split <;> simp
  | quit =>
      refine ⟨by simp [next], h.thread, rfl, ?_⟩
      simp only [next]
      split <;> simp
  | wakeup => exact ⟨by simp [next], h.thread, h.quit, h.polls⟩
  | join => exact ⟨by simp [next], h.thread, h.quit, h.polls⟩
  | publish => exact absurd he hbefore.2.1
  | loop e =>
      have hne : e ≠ .enterLoop := by
        rintro rfl
        exact hbefore.2.2 he.1
      have hpolls : s.pollsBegun e = 0 := by
        cases e <;> simp [pollsBegun, h.quit]
      refine ⟨h.owner, ?_, EventLoop.quit_next hne h.quit, ?_⟩
      · cases e with
        | enterLoop => exact absurd rfl hne
        | testQuit => exact .inr (.inl (by simp [next, threadAfter, h.quit]))
        | _ => exact h.thread
      · simpa [next, hpolls] using h.polls
  | clear => exact ⟨h.owner, .inr (.inr rfl), h.quit, h.polls⟩

theorem run_functors {s : EventLoopThread F} {fs : List F} (ht : s.thread = .looping) (hp : s.loop.point = .running)
    (hf : s.loop.functors = fs) :
    Meets next Enabled s (List.replicate fs.length (.loop .runFunctor)) ∧
      run next s (List.replicate fs.length (.loop .runFunctor)) = { s with loop := { s.loop with functors := [] } } := by
  induction fs generalizing s with
  | nil =>
      refine ⟨trivial, ?_⟩
      change s = { s with loop := { s.loop with functors := [] } }
      rw [← hf]
  | cons f fs ih =>
      have hs : s.next (.loop .runFunctor) = { s with loop := { s.loop with functors := fs } } := by
        simp [next, threadAfter, pollsBegun, EventLoop.next, hf]
      have hi := @ih (s.next (.loop .runFunctor)) (by rw [hs]; exact ht) (by rw [hs]; exact hp) (by rw [hs])
      refine ⟨⟨⟨ht, hp, by simp [hf]⟩, hi.1⟩, ?_⟩
      have hr := hi.2
      rw [hs] at hr
      simpa only [List.length_cons, List.replicate_succ, run, List.foldl_cons, hs] using hr

def iteration (n : Nat) : List (Event F) :=
  [.loop .enterLoop, .loop .testQuit, .loop (.pollReturn false), .loop .beginFunctors, .loop .swapFunctors] ++
    (List.replicate n (.loop .runFunctor) ++ [.loop .endFunctors, .loop .testQuit])

def inBatch (s : EventLoopThread F) : EventLoopThread F :=
  { s with
    thread := .looping
    loop := { s.loop with
      point := .running
      quit := false
      callingPendingFunctors := true
      functors := s.loop.pendingFunctors
      pendingFunctors := []
      woken := false }
    furtherPolls := s.furtherPolls + 1 }

theorem run_to_batch {s : EventLoopThread F} (ht : s.thread = .published) (hq : s.QuitCalled)
    (hl : s.loop.point = .outside ∧ s.loop.functors = []) :
    Meets next Enabled s
        [.loop .enterLoop, .loop .testQuit, .loop (.pollReturn false), .loop .beginFunctors, .loop .swapFunctors] ∧
      run next s
        [.loop .enterLoop, .loop .testQuit, .loop (.pollReturn false), .loop .beginFunctors, .loop .swapFunctors] =
      inBatch s := by
  have ho : s.owner = .waking ∨ s.owner = .joining ∨ s.owner = .destroyed := hq
  constructor
  · simp [Meets, Enabled, Hosts, EventLoop.Enabled, next, threadAfter, EventLoop.next, ht, hl.1]
  · simp [run, next, threadAfter, pollsBegun, EventLoop.next, EventLoop.swapFunctors, inBatch, hl.2, QuitCalled, ho]

theorem iteration_polls_twice {s : EventLoopThread F} (ht : s.thread = .published) (hq : s.QuitCalled)
    (hl : s.loop.point = .outside ∧ s.loop.functors = []) :
    Meets next Enabled s (iteration s.loop.pendingFunctors.length) ∧
      (run next s (iteration s.loop.pendingFunctors.length)).furtherPolls = s.furtherPolls + 2 := by
  obtain ⟨hm, hr⟩ := run_to_batch ht hq hl
  obtain ⟨hmf, hrf⟩ := @run_functors F (inBatch s) s.loop.pendingFunctors rfl rfl rfl
  have ho : s.owner = .waking ∨ s.owner = .joining ∨ s.owner = .destroyed := hq
  constructor
  · rw [iteration, meets_append, meets_append, hr, hrf]
    refine ⟨hm, hmf, ?_⟩
    simp [Meets, Enabled, Hosts, EventLoop.Enabled, next, threadAfter, EventLoop.next, inBatch]
  · rw [iteration, run_append, run_append, hr, hrf]
    simp [run, next, threadAfter, pollsBegun, EventLoop.next, inBatch, QuitCalled, ho]

/-- In every run, and at every moment at which ~EventLoopThread may call quit():
at most one further Poll is begun whatever happens from there on, if and only if
loop() has set quit_ to false before. -/
theorem at_most_one_further_poll_iff (ds : List (Event F))
    (he : Meets next Enabled .construct (ds ++ [.quit])) :
    (∀ es, Meets next Enabled (run next .construct (ds ++ [.quit])) es →
      Always next (fun s => s.furtherPolls ≤ 1) (run next .construct (ds ++ [.quit])) es) ↔
    (run next (.construct : EventLoopThread F) ds).thread ≠ .published := by
  obtain ⟨hd, hquit, _⟩ := (meets_append next _ _ _ _).mp he
  have hi : Inv (run next (.construct : EventLoopThread F) ds) := (always_of_step step_inv construct_inv hd).last
  rw [run_append]
  generalize run next (.construct : EventLoopThread F) ds = s at hi hquit ⊢
  have hp : s.owner = .quitting := hquit
  constructor
  · intro h ht
    obtain ⟨hm, hn⟩ := @iteration_polls_twice F (s.next .quit) ht (.inl rfl) (hi.fresh (.inr (.inr ht)))
    have hle := (h _ hm).last
    change (run next (s.next .quit) _).furtherPolls ≤ 1 at hle
    omega
  · intro ht es hes
    have hb := hi.owner (by simp [hp]) (by simp [hp])
    have hs : Stopping (s.next .quit) := by
      refine ⟨by simp [next], ?_, rfl, ?_⟩
      · change s.thread = _ ∨ s.thread = _ ∨ s.thread = _
        cases hc : s.thread <;> simp_all
      · simp only [next]
        split <;> simp
    exact always_mono (fun s h => h.polls) (always_of_step (fun s e h => h.step) hs hes)

theorem at_most_one_further_poll_polling :
    let ds : List (Event Char) := [.startLoop, .publish, .loop .enterLoop, .loop .testQuit, .startLoopReturn, .destroy]
    ∀ es, Meets next Enabled (run next .construct (ds ++ [.quit])) es →
      Always next (fun s => s.furtherPolls ≤ 1) (run next .construct (ds ++ [.quit])) es :=
  (at_most_one_further_poll_iff _ (by decide)).mpr (by decide)

/-- The owner destroys the EventLoopThread after startLoop has returned and before
the new thread has entered loop(): quit_ is set and then cleared, and the loop,
woken by quit(), polls again. -/
theorem early_quit_forgotten :
    let es : List (Event Char) := [.startLoop, .publish, .startLoopReturn, .destroy, .quit, .wakeup, .loop .enterLoop,
      .loop .testQuit, .loop (.pollReturn true), .loop .handleRead, .loop .beginFunctors, .loop .swapFunctors,
      .loop .endFunctors, .loop .testQuit]
    Meets next Enabled .construct es ∧ ¬ Always next (fun s => s.furtherPolls ≤ 1) .construct es := by
  refine ⟨by decide, by decide⟩

end LoopThread

end Webserver
