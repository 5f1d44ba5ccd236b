import Webserver.LoopThread

namespace Webserver.LoopStart

open Runs EventLoopThread

variable {F : Type}

def Started (s : EventLoopThread F) : Prop := s.owner = .started

def Lives (s : EventLoopThread F) : Prop := s.thread = .published ∨ s.thread = .looping ∨ s.thread = .returned

def quits : Event F → Bool
  | .loop (.quit _) => true
  | _ => false

structure Inv (s : EventLoopThread F) : Prop where
  thread : LoopThread.Inv s
  waiting : s.owner = .waiting → s.thread ≠ .notStarted
  pointer : s.published = true ↔ Lives s

def Unquit (s : EventLoopThread F) : Prop :=
  ¬ s.QuitCalled → s.loop.quit = false ∧ s.thread ≠ .returned ∧ s.thread ≠ .ended

/-- startLoop waits and will never see loop_ set, which the thread has cleared before the wait looked at it. -/
def Hung (s : EventLoopThread F) : Prop := s.owner = .waiting ∧ s.thread = .ended ∧ s.published = false

theorem construct_inv : Inv (.construct : EventLoopThread F) := by
  refine ⟨LoopThread.construct_inv, ?_, ?_⟩
  · simp [EventLoopThread.construct]
  · simp [EventLoopThread.construct, Lives]

theorem loop_lives {s : EventLoopThread F} {e : EventLoop.Event F} (he : s.Hosts e) :
    Lives (s.next (.loop e)) ↔ Lives s := by
  cases e with
  | enterLoop =>
      have ht : s.thread = .published := he
      simp [Lives, next, threadAfter, ht]
  | testQuit =>
      have ht : s.thread = .looping := he
      simp only [Lives, next, threadAfter, ht]
      split <;> simp
  | pollReturn | handleRead | beginFunctors | swapFunctors | runFunctor | endFunctors | queueInLoop | quit | wakeup =>
      exact Iff.rfl

theorem loop_notStarted {s : EventLoopThread F} {e : EventLoop.Event F} (he : s.thread ≠ .notStarted) :
    (s.next (.loop e)).thread ≠ .notStarted := by
  cases e with
  | enterLoop => simp [next, threadAfter]
  | testQuit =>
      simp only [next, threadAfter]
      split
      · simp
      · exact he
  | pollReturn | handleRead | beginFunctors | swapFunctors | runFunctor | endFunctors | queueInLoop | quit | wakeup =>
      exact he

theorem step_inv (s : EventLoopThread F) (e : Event F) (h : Inv s) (he : s.Enabled e) : Inv (s.next e) := by
  have hthread := LoopThread.step_inv s e h.thread he
  cases e with
  | startLoop =>
      have hn := h.thread.created he
      refine ⟨hthread, ?_, ?_⟩
      · simp [next]
      · have hp : s.published = true ↔ Lives s := h.pointer
        simp only [Lives, hn, reduceCtorEq, or_false, iff_false] at hp
        simp [next, Lives, hp]
  | destroy =>
      refine ⟨hthread, ?_, h.pointer⟩
      simp only [next]
      split <;> simp
  | startLoopReturn | quit | wakeup | join => exact ⟨hthread, by simp [next], h.pointer⟩
  | publish => exact ⟨hthread, by simp [next], by simp [next, Lives]⟩
  | loop e =>
      refine ⟨hthread, fun hw => loop_notStarted (h.waiting hw), ?_⟩
      rw [loop_lives he.1]
      exact h.pointer
  | clear => exact ⟨hthread, by simp [next], by simp [next, Lives]⟩

theorem Hung.step (s : EventLoopThread F) (e : Event F) (h : Hung s) (he : s.Enabled e) : Hung (s.next e) := by
  obtain ⟨howner, hthread, hpub⟩ := h
  cases e with
  | startLoop | destroy | quit =>
      have ho : s.owner = _ := he
      rw [howner] at ho
      cases ho
  | startLoopReturn =>
      have hp := he.2
      rw [hpub] at hp
      cases hp
  | wakeup | join =>
      have ho := he.1
      rw [howner] at ho
      cases ho
  | publish | clear =>
      have ht : s.thread = _ := he
      rw [hthread] at ht
      cases ht
  | loop e =>
      have hhosts := he.1
      cases e with
      | queueInLoop inLoop cb => exact ⟨howner, hthread, hpub⟩
      | quit inLoop => exact ⟨howner, hthread, hpub⟩
      | wakeup pushed => exact ⟨howner, hthread, hpub⟩
      | enterLoop | testQuit | pollReturn | handleRead | beginFunctors | swapFunctors | runFunctor | endFunctors =>
          have ht : s.thread = _ := hhosts
          rw [hthread] at ht
          cases ht

theorem Inv.returns {s : EventLoopThread F} (h : Inv s) (hw : s.owner = .waiting) (ht : s.thread ≠ .ended) :
    Reaches next Enabled Started s := by
  cases hthread : s.thread with
  | notStarted => exact absurd hthread (h.waiting hw)
  | initializing => exact ⟨[.publish, .startLoopReturn], ⟨hthread, ⟨hw, rfl⟩, trivial⟩, rfl⟩
  | published | looping | returned =>
      have hp : s.published = true := h.pointer.mpr (by simp [Lives, hthread])
      exact ⟨[.startLoopReturn], ⟨⟨hw, hp⟩, trivial⟩, rfl⟩
  | ended => exact absurd hthread ht

theorem Inv.returns_iff {s : EventLoopThread F} (h : Inv s) (hw : s.owner = .waiting) :
    Reaches next Enabled Started s ↔ s.thread ≠ .ended := by
  refine ⟨fun hr ht => ?_, h.returns hw⟩
  have hpub : s.published = false := by
    have hp : s.published = true ↔ Lives s := h.pointer
    simpa [Lives, ht] using hp
  refine not_reaches_of_step Hung.step (fun t hhung hstarted => ?_) ⟨hw, ht, hpub⟩ hr
  rw [Started, hhung.1] at hstarted
  cases hstarted

theorem loop_unquit {s : EventLoopThread F} {e : EventLoop.Event F} (hq : s.loop.quit = false)
    (he : quits (.loop e) = false) : (s.loop.next e).quit = false ∧ s.threadAfter e = s.thread ∨
      e = .enterLoop ∧ (s.loop.next e).quit = false := by
  cases e with
  | enterLoop => exact .inr ⟨rfl, rfl⟩
  | testQuit => exact .inl ⟨hq, by simp [threadAfter, hq]⟩
  | queueInLoop inLoop cb => exact .inl ⟨(EventLoop.queueInLoop_flags inLoop cb s.loop).1.trans hq, rfl⟩
  | quit inLoop => cases he
  | wakeup pushed => cases pushed <;> exact .inl ⟨hq, rfl⟩
  | pollReturn | handleRead | beginFunctors | swapFunctors | runFunctor | endFunctors => exact .inl ⟨hq, rfl⟩

theorem step_unquit (s : EventLoopThread F) (e : Event F) (h : Unquit s) (he : s.Enabled e ∧ quits e = false) :
    Unquit (s.next e) := by
  obtain ⟨hen, hquits⟩ := he
  cases e with
  | startLoop =>
      have ho : s.owner = .created := hen
      obtain ⟨hq, _, _⟩ := h (by simp [QuitCalled, ho])
      exact fun _ => ⟨hq, by simp [next], by simp [next]⟩
  | startLoopReturn => exact fun _ => h (by simp [QuitCalled, hen.1])
  | destroy =>
      have ho : s.owner = .started := hen
      exact fun _ => h (by simp [QuitCalled, ho])
  | quit => exact fun hn => absurd (.inl rfl) hn
  | wakeup => exact fun hn => absurd (.inr (.inl rfl)) hn
  | join => exact fun hn => absurd (.inr (.inr rfl)) hn
  | publish => exact fun hn => ⟨(h hn).1, by simp [next], by simp [next]⟩
  | loop e =>
      intro hn
      obtain ⟨hq, ht⟩ := h hn
      rcases loop_unquit hq hquits with ⟨hquit, hthread⟩ | ⟨rfl, hquit⟩
      · refine ⟨hquit, ?_⟩
        simp only [next, hthread]
        exact ht
      · exact ⟨hquit, by simp [next, threadAfter], by simp [next, threadAfter]⟩
  | clear =>
      intro hn
      exact absurd hen (h hn).2.1

structure Reliable (s : EventLoopThread F) : Prop where
  returns : s.owner = .waiting → Reaches next Enabled Started s
  pointer : s.owner = .started ∨ s.owner = .quitting → Lives s ∧ s.thread ≠ .returned

theorem reliable {s : EventLoopThread F} (h : Inv s) (hu : Unquit s) : Reliable s := by
  constructor
  · intro hw
    exact h.returns hw (hu (by simp [QuitCalled, hw])).2.2
  · intro ho
    have hcalled : ¬ s.QuitCalled := by
      rcases ho with ho | ho <;> simp [QuitCalled, ho]
    have hcreated : s.owner ≠ .created ∧ s.owner ≠ .waiting := by
      rcases ho with ho | ho <;> simp [ho]
    obtain ⟨hnot, hinit⟩ := h.thread.owner hcreated.1 hcreated.2
    obtain ⟨_, hreturned, hended⟩ := hu hcalled
    refine ⟨?_, hreturned⟩
    cases hthread : s.thread with
    | notStarted => exact absurd hthread hnot
    | initializing => exact absurd hthread hinit
    | published => exact .inl hthread
    | looping => exact .inr (.inl hthread)
    | returned => exact .inr (.inr hthread)
    | ended => exact absurd hthread hended

/-- In every run, startLoop can still return unless the thread has come to its
end during the wait; without a quit() by others that never happens. -/
theorem startLoop_returns_iff (es : List (Event F)) (he : Meets next Enabled .construct es) :
    Always next (fun s => s.owner = .waiting → (Reaches next Enabled Started s ↔ s.thread ≠ .ended)) .construct es ∧
      ((∀ e ∈ es, quits e = false) → Always next Reliable .construct es) := by
  have hinv := always_of_step step_inv construct_inv he
  refine ⟨always_mono (fun s h => h.returns_iff) hinv, fun hes => ?_⟩
  have hstep : ∀ (s : EventLoopThread F) e, Inv s ∧ Unquit s → s.Enabled e ∧ quits e = false →
      Inv (s.next e) ∧ Unquit (s.next e) := fun s e hs he => ⟨step_inv s e hs.1 he.1, step_unquit s e hs.2 he⟩
  refine always_mono (fun s h => reliable h.1 h.2) (always_of_step hstep ⟨construct_inv, ?_⟩ ?_)
  · exact fun _ => ⟨rfl, by simp [EventLoopThread.construct], by simp [EventLoopThread.construct]⟩
  · exact meets_and.mpr ⟨he, meets_of_forall _ hes⟩

theorem startLoop_returns_iff_hung :
    let es : List (Event Char) := [.startLoop, .loop (.queueInLoop true 'q'), .publish, .loop .enterLoop,
      .loop .testQuit, .loop (.pollReturn false), .loop .beginFunctors, .loop .swapFunctors, .loop .runFunctor,
      .loop (.quit true), .loop .endFunctors, .loop .testQuit, .clear]
    Always next (fun s => s.owner = .waiting → (Reaches next Enabled Started s ↔ s.thread ≠ .ended)) .construct es ∧
      ((∀ e ∈ es, quits e = false) → Always next Reliable .construct es) :=
  startLoop_returns_iff _ (by decide)

end Webserver.LoopStart
